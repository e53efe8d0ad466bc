import Tenure.Proofs.Numeric.Rounding

/-!
# Arithmetic on finite doubles

An operation on two finite doubles that are not negative rounds the exact result, once; from
`overflowUnits` on what it gives is infinite, and stands there in the total order.

* `roundUnits_le_power`, `power_le_roundUnits` — rounding does not pass a power of two;
* `ofUnitsRatio_of_lt`, `rank_ofUnitsRatio` — the result that fits, and the place of any result;
* `ofNat_of_lt`, `add_finite`, `mul_finite`, `div_finite` — the operations.
-/

namespace Tenure.Numeric

/-! ## Sizes -/

-- the exponents are unknown in these proofs, lest the powers be computed
theorem unitsPerOne_pos : 0 < unitsPerOne := by
  unfold unitsPerOne
  generalize 1074 = k
  exact step_pos k

/-- One is far more than the `2^52` units from which on rounding is relative. -/
theorem unitsPerOne_large : 2 ^ 100 ≤ unitsPerOne := by
  have hmost : 100 ≤ 1074 := by decide
  unfold unitsPerOne
  generalize 1074 = k at *
  exact Nat.pow_le_pow_right (by decide) hmost

theorem exists_overflowUnits_eq : ∃ k, 100 ≤ k ∧ overflowUnits = Nat.pow 2 k * unitsPerOne :=
  ⟨1024, by decide, by decide +kernel⟩

/-- And far less than what is infinite. -/
theorem overflowUnits_large : 2 ^ 100 * unitsPerOne ≤ overflowUnits := by
  obtain ⟨k, hmost, hk⟩ := exists_overflowUnits_eq
  rw [hk]
  exact Nat.mul_le_mul_right _ (Nat.pow_le_pow_right (by decide) hmost)

/-! ## Powers of two -/

section Powers

variable {num den c : Nat}

theorem roundUnits_power (hden : 0 < den) :
    roundUnits (2 ^ c * unitsPerOne * den) den = 2 ^ c * unitsPerOne := by
  unfold unitsPerOne
  generalize 1074 = k
  have hsteps : 2 ^ c * Nat.pow 2 k = 1 * Nat.pow 2 (c + k) := by
    rw [Nat.one_mul]
    exact (Nat.pow_add 2 c k).symm
  rw [roundUnits_congr hden Nat.one_pos (Nat.mul_one _), hsteps,
    roundUnits_mul_step (by decide)]

theorem roundUnits_le_power (hden : 0 < den) (h : num ≤ 2 ^ c * unitsPerOne * den) :
    roundUnits num den ≤ 2 ^ c * unitsPerOne :=
  roundUnits_power hden ▸ roundUnits_mono hden h

theorem power_le_roundUnits (hden : 0 < den) (h : 2 ^ c * unitsPerOne * den ≤ num) :
    2 ^ c * unitsPerOne ≤ roundUnits num den :=
  roundUnits_power hden ▸ roundUnits_mono hden h

end Powers

/-! ## Operations -/

namespace Binary64

theorem ofUnitsRatio_of_lt {negative : Bool} {num den : Nat}
    (h : roundUnits num den < overflowUnits) :
    ofUnitsRatio negative num den = .finite negative (roundUnits num den) := by
  unfold ofUnitsRatio
  dsimp only
  rw [if_pos h]

/-- A result that is too large to be finite stands where the first such magnitude would. -/
theorem rank_ofUnitsRatio (num den : Nat) :
    (ofUnitsRatio false num den).rank = (min (roundUnits num den) overflowUnits : Nat) := by
  by_cases hfits : roundUnits num den < overflowUnits
  · rw [ofUnitsRatio_of_lt hfits, Nat.min_eq_left (Nat.le_of_lt hfits)]
    rfl
  · have hinfinite : ofUnitsRatio false num den = .infinite false := by
      unfold ofUnitsRatio
      dsimp only
      rw [if_neg hfits]
    rw [hinfinite, Nat.min_eq_right (Nat.le_of_not_lt hfits)]
    rfl

/-- Natural numbers below `2^53` are doubles. -/
theorem ofNat_of_lt {n : Nat} (h : n < 2 ^ 53) :
    Binary64.ofNat n = .finite false (n * unitsPerOne) := by
  have hround : roundUnits (n * unitsPerOne) 1 = n * unitsPerOne := by
    unfold unitsPerOne
    generalize 1074 = k
    exact roundUnits_mul_step h
  have hlarge := overflowUnits_large
  have hbound : 2 ^ 53 * unitsPerOne ≤ overflowUnits := by omega
  have hfits : n * unitsPerOne < overflowUnits :=
    Nat.lt_of_lt_of_le (Nat.mul_lt_mul_of_pos_right h unitsPerOne_pos) hbound
  unfold Binary64.ofNat ofRatio
  rw [ofUnitsRatio_of_lt (by rwa [hround]), hround]

theorem add_finite (u v : Nat) :
    (.finite false u + .finite false v : Binary64) = ofUnitsRatio false (u + v) 1 := by
  show Binary64.add (.finite false u) (.finite false v) = _
  rw [Binary64.add, if_pos rfl]

theorem mul_finite (u v : Nat) :
    (.finite false u * .finite false v : Binary64) = ofUnitsRatio false (u * v) unitsPerOne := by
  show Binary64.mul (.finite false u) (.finite false v) = _
  rw [Binary64.mul, bne_self_eq_false]

theorem div_finite (u : Nat) {v : Nat} (hv : v ≠ 0) :
    (.finite false u / .finite false v : Binary64) = ofUnitsRatio false (u * unitsPerOne) v := by
  show Binary64.div (.finite false u) (.finite false v) = _
  rw [Binary64.div, if_neg hv, bne_self_eq_false]

end Binary64

end Tenure.Numeric
