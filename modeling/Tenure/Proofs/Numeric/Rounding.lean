import Mathlib.Algebra.Order.Field.Rat
import Mathlib.Tactic.Linarith
import Mathlib.Tactic.Ring
import Tenure.Numeric.Binary64

/-!
# Rounding, and how far it goes

Both roundings depend on the fraction alone (`roundHalfEven_scale`, `roundUnits_congr`). A
magnitude with whole part `q` lies between `2^52` and `2^53` steps of its grid unless the grid is
the finest one, and that determines the grid (`gridBits_eq`). From this follow

* `near_roundUnits`: a magnitude of at least `2^52` units moves by at most its `2^53`-th part;
* `roundUnits_of_steps`: a fraction within half a step of a number of steps is rounded to that;
* `roundUnits_of_mod`: a magnitude on its grid stays where it is;
* `roundUnits_mono`: a larger magnitude is not rounded to less;
* `representable_roundUnits`: what rounding gives lies on its own grid, also where it reaches the
  next power of two.
-/

namespace Tenure.Numeric

/-! ## Whole numbers -/

section Whole

variable {num den : Nat}

theorem roundHalfEven_near (num : Nat) (hden : 0 < den) :
    2 * (roundHalfEven num den * den) ≤ 2 * num + den ∧
      2 * num ≤ 2 * (roundHalfEven num den * den) + den := by
  have hsplit := Nat.div_add_mod' num den
  have hrest := Nat.mod_lt num hden
  have hnext : (num / den + 1) * den = num / den * den + den := Nat.succ_mul _ _
  unfold roundHalfEven
  dsimp only
  split
  · omega
  split
  · omega
  rcases Nat.mod_two_eq_zero_or_one (num / den) with heven | hodd
  · rw [heven, Nat.add_zero]
    omega
  · rw [hodd]
    omega

/-- The only whole number within half a unit, where a number in the middle has to be even. -/
theorem roundHalfEven_eq (hden : 0 < den) {m : Nat} (hlow : 2 * (m * den) ≤ 2 * num + den)
    (hhigh : 2 * num ≤ 2 * (m * den) + den)
    (htie : 2 * (m * den) = 2 * num + den ∨ 2 * num = 2 * (m * den) + den → m % 2 = 0) :
    roundHalfEven num den = m := by
  have hsplit := Nat.div_add_mod' num den
  have hrest := Nat.mod_lt num hden
  have hnext : (num / den + 1) * den = num / den * den + den := Nat.succ_mul _ _
  have hmono {a b : Nat} (h : a ≤ b) : a * den ≤ b * den := Nat.mul_le_mul_right den h
  have hcases : m = num / den ∨ m = num / den + 1 := by
    rcases Nat.lt_trichotomy m (num / den) with hless | heq | hmore
    · have hstep := hmono (a := m + 1) hless
      rw [Nat.succ_mul] at hstep
      omega
    · exact .inl heq
    · rcases Nat.eq_or_lt_of_le hmore with heq | hmore
      · exact .inr heq.symm
      · have hstep := hmono (a := num / den + 2) hmore
        have htwo : (num / den + 2) * den = num / den * den + 2 * den := Nat.add_mul _ _ _
        omega
  unfold roundHalfEven
  dsimp only
  rcases hcases with rfl | rfl
  · split
    · rfl
    split
    · omega
    rw [htie (.inr (by omega)), Nat.add_zero]
  · rw [hnext] at hlow hhigh htie
    split
    · omega
    split
    · rfl
    have heven := htie (.inl (by omega))
    omega

theorem roundHalfEven_mul (m : Nat) (hden : 0 < den) : roundHalfEven (m * den) den = m :=
  roundHalfEven_eq hden (by omega) (by omega) (by omega)

theorem roundHalfEven_scale (num den : Nat) {c : Nat} (hc : 0 < c) :
    roundHalfEven (num * c) (den * c) = roundHalfEven num den := by
  have hless (a b : Nat) : a * c < b * c ↔ a < b := Nat.mul_lt_mul_right hc
  have htwice : 2 * (num % den * c) = 2 * (num % den) * c := (Nat.mul_assoc ..).symm
  unfold roundHalfEven
  dsimp only
  rw [Nat.mul_div_mul_right _ _ hc, Nat.mul_mod_mul_right, htwice]
  simp only [hless]

/-- A larger number is not rounded to less: between two that were, there would be a unit. -/
theorem roundHalfEven_mono {num' : Nat} (hden : 0 < den) (h : num ≤ num') :
    roundHalfEven num den ≤ roundHalfEven num' den := by
  refine Nat.le_of_not_lt fun hless => ?_
  have hstep := Nat.mul_le_mul_right den hless
  rw [Nat.succ_mul] at hstep
  have hnear := roundHalfEven_near num hden
  have hnear' := roundHalfEven_near num' hden
  have hsame : num = num' := by omega
  rw [hsame] at hless
  exact Nat.lt_irrefl _ hless

end Whole

/-! ## The grid -/

/-- A grid step. -/
theorem step_pos (k : Nat) : 0 < Nat.pow 2 k := Nat.two_pow_pos k

theorem step_succ (k : Nat) : Nat.pow 2 (k + 1) = 2 * Nat.pow 2 k :=
  (Nat.pow_succ 2 k).trans (Nat.mul_comm _ _)

theorem lt_of_gridBits (q : Nat) : q < 2 ^ 53 * Nat.pow 2 (gridBits q) := by
  have hpower : 2 ^ (q.log2 + 1) ≤ 2 ^ (53 + gridBits q) :=
    Nat.pow_le_pow_right (by decide) (by unfold gridBits; omega)
  rw [Nat.pow_add 2 53] at hpower
  exact Nat.lt_of_lt_of_le Nat.lt_log2_self hpower

theorem le_of_gridBits {q : Nat} (h : 0 < gridBits q) : 2 ^ 52 * Nat.pow 2 (gridBits q) ≤ q := by
  have hlog : 52 + gridBits q = q.log2 := by
    unfold gridBits at h ⊢
    omega
  have hq : q ≠ 0 := by
    rintro rfl
    exact absurd h (by decide)
  show 2 ^ 52 * 2 ^ gridBits q ≤ q
  rw [← Nat.pow_add, hlog]
  exact Nat.log2_self_le hq

/-- The grid of a magnitude between `2^52` and `2^53` steps. -/
theorem gridBits_eq {q k : Nat} (hlow : 2 ^ 52 * Nat.pow 2 k ≤ q)
    (hhigh : q < 2 ^ 53 * Nat.pow 2 k) : gridBits q = k := by
  have hq : q ≠ 0 := by
    have hstep := step_pos k
    omega
  have hlog : q.log2 = 52 + k := by
    refine (Nat.log2_eq_iff hq).mpr ⟨?_, ?_⟩
    · rw [Nat.pow_add]
      exact hlow
    · rw [Nat.add_right_comm, Nat.pow_add]
      exact hhigh
  unfold gridBits
  omega

theorem gridBits_eq_zero {q : Nat} (h : q < 2 ^ 53) : gridBits q = 0 := by
  rcases Nat.eq_zero_or_pos (gridBits q) with hzero | hpos
  · exact hzero
  have hlow := le_of_gridBits hpos
  obtain ⟨k, hk⟩ := Nat.exists_eq_succ_of_ne_zero (Nat.ne_of_gt hpos)
  have hstep := step_pos k
  rw [hk, Nat.succ_eq_add_one, step_succ] at hlow
  omega

/-- A magnitude of fewer than `2^53` steps has no coarser grid. -/
theorem gridBits_le {q k : Nat} (h : q < 2 ^ 53 * Nat.pow 2 k) : gridBits q ≤ k := by
  refine Nat.le_of_not_lt fun hmore => ?_
  have hlow := le_of_gridBits (Nat.lt_of_le_of_lt (Nat.zero_le k) hmore)
  have hstep : Nat.pow 2 (k + 1) ≤ Nat.pow 2 (gridBits q) := Nat.pow_le_pow_right (by decide) hmore
  rw [step_succ] at hstep
  omega

theorem gridBits_mono {q q' : Nat} (h : q ≤ q') : gridBits q ≤ gridBits q' :=
  gridBits_le (Nat.lt_of_le_of_lt h (lt_of_gridBits q'))

/-- A magnitude as a number of steps of its grid. -/
theorem Representable.exists_steps {units : Nat} (h : Representable units) :
    ∃ m, units = m * Nat.pow 2 (gridBits units) ∧ units / Nat.pow 2 (gridBits units) = m ∧
      m < 2 ^ 53 ∧ (0 < gridBits units → 2 ^ 52 ≤ m) := by
  have hstep := step_pos (gridBits units)
  refine ⟨units / Nat.pow 2 (gridBits units),
    (Nat.div_mul_cancel (Nat.dvd_of_mod_eq_zero h.2)).symm, rfl, ?_, fun hpos => ?_⟩
  · exact (Nat.div_lt_iff_lt_mul hstep).mpr (lt_of_gridBits units)
  · exact (Nat.le_div_iff_mul_le hstep).mpr (le_of_gridBits hpos)

/-- The next larger magnitude is at least a step away. -/
theorem Representable.add_step_le {units units' : Nat} (h : Representable units)
    (h' : Representable units') (hlt : units < units') :
    units + Nat.pow 2 (gridBits units) ≤ units' := by
  have hgrid : Nat.pow 2 (gridBits units) ∣ Nat.pow 2 (gridBits units') :=
    Nat.pow_dvd_pow 2 (gridBits_mono (Nat.le_of_lt hlt))
  have hdvd : Nat.pow 2 (gridBits units) ∣ units' - units :=
    Nat.dvd_sub (hgrid.trans (Nat.dvd_of_mod_eq_zero h'.2)) (Nat.dvd_of_mod_eq_zero h.2)
  have hle := Nat.le_of_dvd (Nat.sub_pos_of_lt hlt) hdvd
  omega

/-! ## Rounding on the grid -/

theorem roundUnits_scale (num den : Nat) {c : Nat} (hc : 0 < c) :
    roundUnits (num * c) (den * c) = roundUnits num den := by
  unfold roundUnits
  dsimp only
  rw [Nat.mul_div_mul_right _ _ hc, Nat.mul_right_comm, roundHalfEven_scale _ _ hc]

/-- Rounding depends on the fraction alone. -/
theorem roundUnits_congr {num den num' den' : Nat} (hden : 0 < den) (hden' : 0 < den')
    (h : num * den' = num' * den) : roundUnits num den = roundUnits num' den' := by
  rw [← roundUnits_scale num den hden', ← roundUnits_scale num' den' hden, h, Nat.mul_comm den den']

section Grid

variable {num den : Nat}

/-- The number of steps of its grid that a magnitude is rounded to. -/
def significand (num den : Nat) : Nat :=
  roundHalfEven num (den * Nat.pow 2 (gridBits (num / den)))

theorem roundUnits_eq (num den : Nat) :
    roundUnits num den = significand num den * Nat.pow 2 (gridBits (num / den)) := rfl

theorem roundUnits_mul (num den : Nat) :
    roundUnits num den * den =
      significand num den * (den * Nat.pow 2 (gridBits (num / den))) := by
  rw [roundUnits_eq, Nat.mul_assoc, Nat.mul_comm (Nat.pow _ _)]

theorem num_lt_of_gridBits (num : Nat) (hden : 0 < den) :
    num < 2 ^ 53 * (den * Nat.pow 2 (gridBits (num / den))) := by
  have hlt := (Nat.div_lt_iff_lt_mul hden).mp (lt_of_gridBits (num / den))
  rwa [Nat.mul_assoc, Nat.mul_comm (Nat.pow _ _)] at hlt

theorem le_num_of_gridBits (hden : 0 < den) (h : 0 < gridBits (num / den)) :
    2 ^ 52 * (den * Nat.pow 2 (gridBits (num / den))) ≤ num := by
  have hle := (Nat.le_div_iff_mul_le hden).mp (le_of_gridBits h)
  rwa [Nat.mul_assoc, Nat.mul_comm (Nat.pow _ _)] at hle

/-- The grid of a fraction between `2^52` and `2^53` steps, or below that of the finest ones. -/
theorem gridBits_div {k : Nat} (hden : 0 < den)
    (hleast : k = 0 ∨ 2 ^ 52 * (den * Nat.pow 2 k) ≤ num)
    (hmost : num < 2 ^ 53 * (den * Nat.pow 2 k)) : gridBits (num / den) = k := by
  have hbelow : num / den < 2 ^ 53 * Nat.pow 2 k := by
    refine (Nat.div_lt_iff_lt_mul hden).mpr ?_
    rwa [Nat.mul_assoc, Nat.mul_comm (Nat.pow _ _)]
  rcases hleast with rfl | hleast
  · exact gridBits_eq_zero hbelow
  · refine gridBits_eq ((Nat.le_div_iff_mul_le hden).mpr ?_) hbelow
    rwa [Nat.mul_assoc, Nat.mul_comm (Nat.pow _ _)]

/-- A fraction within half a step of a whole number of steps, which has to be even if it is half a
step away, is rounded to that number of steps. -/
theorem roundUnits_of_steps {k m : Nat} (hden : 0 < den)
    (hleast : k = 0 ∨ 2 ^ 52 * (den * Nat.pow 2 k) ≤ num)
    (hmost : num < 2 ^ 53 * (den * Nat.pow 2 k))
    (hlow : 2 * (m * (den * Nat.pow 2 k)) ≤ 2 * num + den * Nat.pow 2 k)
    (hhigh : 2 * num ≤ 2 * (m * (den * Nat.pow 2 k)) + den * Nat.pow 2 k)
    (htie : 2 * (m * (den * Nat.pow 2 k)) = 2 * num + den * Nat.pow 2 k ∨
      2 * num = 2 * (m * (den * Nat.pow 2 k)) + den * Nat.pow 2 k → m % 2 = 0) :
    roundUnits num den = m * Nat.pow 2 k := by
  rw [roundUnits_eq, significand, gridBits_div hden hleast hmost,
    roundHalfEven_eq (Nat.mul_pos hden (step_pos k)) hlow hhigh htie]

/-- That a rounded number differs from the exact one by at most the `2^53`-th part of it. -/
structure Near (rounded exact : Nat) : Prop where
  le : 2 ^ 53 * rounded ≤ 2 ^ 53 * exact + exact
  ge : 2 ^ 53 * exact ≤ 2 ^ 53 * rounded + exact

theorem Near.mul {rounded exact : Nat} (h : Near rounded exact) (n : Nat) :
    Near (rounded * n) (exact * n) := by
  have hle := Nat.mul_le_mul_right n h.le
  have hge := Nat.mul_le_mul_right n h.ge
  rw [Nat.add_mul, Nat.mul_assoc, Nat.mul_assoc] at hle hge
  exact ⟨hle, hge⟩

/-- A number below `2^53 / k` times `unit` moves by at most the `k`-th part of it. -/
theorem Near.within {rounded exact unit : Nat} (h : Near rounded exact) (k : Nat)
    (hsmall : k * exact ≤ 2 ^ 53 * unit) :
    k * rounded ≤ k * exact + unit ∧ k * exact ≤ k * rounded + unit := by
  have hle := Nat.mul_le_mul_left k h.le
  have hge := Nat.mul_le_mul_left k h.ge
  rw [Nat.mul_add, Nat.mul_left_comm, Nat.mul_left_comm k (2 ^ 53)] at hle hge
  exact ⟨by omega, by omega⟩

/-- Of nothing, and of a magnitude of at least `2^52` units, rounding moves at most the `2^53`-th
part. -/
theorem near_roundUnits (hden : 0 < den) (hlarge : num = 0 ∨ 2 ^ 52 * den ≤ num) :
    Near (roundUnits num den * den) num := by
  have hfine : num = 0 ∨ 2 ^ 52 * (den * Nat.pow 2 (gridBits (num / den))) ≤ num := by
    rcases hlarge with hnone | hlarge
    · exact .inl hnone
    rcases Nat.eq_zero_or_pos (gridBits (num / den)) with hzero | hpos
    · rw [hzero]
      exact .inr ((Nat.mul_one den).symm ▸ hlarge)
    · exact .inr (le_num_of_gridBits hden hpos)
  rw [roundUnits_mul]
  rcases hfine with rfl | hfine
  · have hnone : significand 0 den = 0 := by
      have hexact := roundHalfEven_mul 0 (Nat.mul_pos hden (step_pos (gridBits (0 / den))))
      rwa [Nat.zero_mul] at hexact
    rw [hnone, Nat.zero_mul]
    exact ⟨Nat.le_refl _, Nat.le_refl _⟩
  · have hnear := roundHalfEven_near num (Nat.mul_pos hden (step_pos (gridBits (num / den))))
    unfold significand
    constructor <;> omega

/-- A magnitude on its grid stays where it is. -/
theorem roundUnits_of_mod {units : Nat} (h : units % Nat.pow 2 (gridBits units) = 0) :
    roundUnits units 1 = units := by
  have hsteps : units / Nat.pow 2 (gridBits units) * Nat.pow 2 (gridBits units) = units :=
    Nat.div_mul_cancel (Nat.dvd_of_mod_eq_zero h)
  rw [roundUnits_eq, significand, Nat.div_one, Nat.one_mul]
  calc roundHalfEven units (Nat.pow 2 (gridBits units)) * Nat.pow 2 (gridBits units)
      = roundHalfEven (units / Nat.pow 2 (gridBits units) * Nat.pow 2 (gridBits units))
          (Nat.pow 2 (gridBits units)) * Nat.pow 2 (gridBits units) := by rw [hsteps]
    _ = units := by rw [roundHalfEven_mul _ (step_pos _), hsteps]

/-- So does a number of fewer than `2^53` steps of any grid. -/
theorem roundUnits_mul_step {m k : Nat} (hm : m < 2 ^ 53) :
    roundUnits (m * Nat.pow 2 k) 1 = m * Nat.pow 2 k := by
  have hgrid : gridBits (m * Nat.pow 2 k) ≤ k :=
    gridBits_le (Nat.mul_lt_mul_of_pos_right hm (step_pos k))
  have hdvd : Nat.pow 2 (gridBits (m * Nat.pow 2 k)) ∣ Nat.pow 2 k := Nat.pow_dvd_pow 2 hgrid
  exact roundUnits_of_mod (Nat.mod_eq_zero_of_dvd (Nat.dvd_mul_left_of_dvd hdvd m))

/-- A magnitude has at most `2^53` steps, and no fewer than `2^52` on a grid that is not the
finest one. -/
theorem significand_bounds (num : Nat) (hden : 0 < den) :
    significand num den ≤ 2 ^ 53 ∧ (0 < gridBits (num / den) → 2 ^ 52 ≤ significand num den) := by
  have hsize := Nat.mul_pos hden (step_pos (gridBits (num / den)))
  have hnear := roundHalfEven_near num hsize
  constructor
  · refine Nat.le_of_not_lt fun hmore => ?_
    have hsteps := Nat.mul_le_mul_right (den * Nat.pow 2 (gridBits (num / den))) hmore
    rw [Nat.succ_mul] at hsteps
    have hlt := num_lt_of_gridBits num hden
    unfold significand at hsteps
    omega
  · intro hpos
    refine Nat.le_of_not_lt fun hless => ?_
    have hsteps := Nat.mul_le_mul_right (den * Nat.pow 2 (gridBits (num / den))) hless
    rw [Nat.succ_mul] at hsteps
    have hle := le_num_of_gridBits hden hpos
    unfold significand at hsteps
    omega

/-- A larger magnitude is not rounded to less: on a coarser grid it has at least as many units as a
smaller one at most. -/
theorem roundUnits_mono {num' : Nat} (hden : 0 < den) (h : num ≤ num') :
    roundUnits num den ≤ roundUnits num' den := by
  have hgrid := gridBits_mono (Nat.div_le_div_right (c := den) h)
  rw [roundUnits_eq, roundUnits_eq]
  rcases Nat.eq_or_lt_of_le hgrid with hsame | hcoarser
  · unfold significand
    rw [hsame]
    exact Nat.mul_le_mul_right _ (roundHalfEven_mono (Nat.mul_pos hden (step_pos _)) h)
  · have hmost := (significand_bounds num hden).1
    have hleast := (significand_bounds num' hden).2 (Nat.zero_lt_of_lt hcoarser)
    have hstep : Nat.pow 2 (gridBits (num / den) + 1) ≤ Nat.pow 2 (gridBits (num' / den)) :=
      Nat.pow_le_pow_right (by decide) hcoarser
    rw [step_succ] at hstep
    calc significand num den * Nat.pow 2 (gridBits (num / den))
        ≤ 2 ^ 53 * Nat.pow 2 (gridBits (num / den)) := Nat.mul_le_mul_right _ hmost
      _ = 2 ^ 52 * (2 * Nat.pow 2 (gridBits (num / den))) := by ring
      _ ≤ 2 ^ 52 * Nat.pow 2 (gridBits (num' / den)) := Nat.mul_le_mul_left _ hstep
      _ ≤ significand num' den * Nat.pow 2 (gridBits (num' / den)) :=
        Nat.mul_le_mul_right _ hleast

/-- What rounding gives lies on its own grid. -/
theorem representable_roundUnits (hden : 0 < den) (h : roundUnits num den < overflowUnits) :
    Representable (roundUnits num den) := by
  refine ⟨h, ?_⟩
  obtain ⟨hmost, hleast⟩ := significand_bounds num hden
  rw [roundUnits_eq]
  have hstep := step_pos (gridBits (num / den))
  rcases Nat.eq_or_lt_of_le hmost with hfull | hmost
  · -- the next power of two
    have hnext : significand num den * Nat.pow 2 (gridBits (num / den)) =
        2 ^ 52 * Nat.pow 2 (gridBits (num / den) + 1) := by
      rw [hfull, step_succ]
      omega
    rw [hnext, gridBits_eq (Nat.le_refl _) (by rw [step_succ]; omega), Nat.mul_mod_left]
  rcases Nat.eq_zero_or_pos (gridBits (num / den)) with hzero | hpos
  · -- the finest grid
    have hone : significand num den * Nat.pow 2 (gridBits (num / den)) = significand num den := by
      rw [hzero]
      exact Nat.mul_one _
    rw [hone, gridBits_eq_zero hmost]
    exact Nat.mod_one _
  · rw [gridBits_eq (Nat.mul_le_mul_right _ (hleast hpos))
      (Nat.mul_lt_mul_of_pos_right hmost hstep), Nat.mul_mod_left]

end Grid

end Tenure.Numeric
