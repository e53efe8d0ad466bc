import Mathlib.Algebra.Order.Field.Power
import Mathlib.Tactic.FieldSimp
import Tenure.Numeric.Decimal
import Tenure.Proofs.Numeric.Arithmetic

/-!
# The shortest decimal reads back

`ReadBack.ofUnits` is the interval of the numbers that round to a magnitude
(`roundUnits_of_contains`); the search for the shortest decimal takes neighbours on ever finer
decimal grids and checks them against that interval.

* Whatever the search takes reads back (`readsBack_of_neighbour`), since it was checked.
* It takes something: with seventeen digits the nearest neighbour is closer than half a step of
  the magnitude's grid (`contains_of_near`, `neighbour_isSome`), so that the fallback behind the
  search is never used (`readsBack_shortest`).
* `exists_positionalText` carries this over to the text: its digits, read as a whole number over a
  power of ten, are the value of the decimal.
-/

namespace Tenure.Numeric

/-! ## The interval of a magnitude -/

theorem ReadBack.ends_of_contains {i : ReadBack} {num den : Nat} (h : i.contains num den = true) :
    i.low * den ≤ num ∧ num ≤ i.high * den ∧
      (i.closed = false → i.low * den < num ∧ num < i.high * den) := by
  unfold ReadBack.contains at h
  cases hclosed : i.closed with
  | true =>
      rw [hclosed] at h
      obtain ⟨hlow, hhigh⟩ := Bool.and_eq_true_iff.mp h
      exact ⟨of_decide_eq_true hlow, of_decide_eq_true hhigh, fun hopen => by cases hopen⟩
  | false =>
      rw [hclosed] at h
      obtain ⟨hlow, hhigh⟩ := Bool.and_eq_true_iff.mp h
      have hlow := of_decide_eq_true hlow
      have hhigh := of_decide_eq_true hhigh
      exact ⟨Nat.le_of_lt hlow, Nat.le_of_lt hhigh, fun _ => ⟨hlow, hhigh⟩⟩

theorem ReadBack.contains_of_ends {i : ReadBack} {num den : Nat} (hlow : i.low * den < num)
    (hhigh : num < i.high * den) : i.contains num den = true := by
  unfold ReadBack.contains
  split
  · exact Bool.and_eq_true_iff.mpr ⟨decide_eq_true hlow.le, decide_eq_true hhigh.le⟩
  · exact Bool.and_eq_true_iff.mpr ⟨decide_eq_true hlow, decide_eq_true hhigh⟩

/-- The interval of a magnitude of `m` steps, times a denominator: half a step to both sides, but
only a quarter below a power of two. -/
theorem Representable.exists_interval {units : Nat} (h : Representable units) (den : Nat) :
    ∃ m k, units = m * Nat.pow 2 k ∧ m < 2 ^ 53 ∧ (0 < k → 2 ^ 52 ≤ m) ∧
      4 * units * den = 4 * (m * (den * Nat.pow 2 k)) ∧
      (ReadBack.ofUnits units).low * den = 4 * (m * (den * Nat.pow 2 k)) -
        (if m = 2 ^ 52 ∧ 0 < k then 1 else 2) * (den * Nat.pow 2 k) ∧
      (ReadBack.ofUnits units).high * den =
        4 * (m * (den * Nat.pow 2 k)) + 2 * (den * Nat.pow 2 k) ∧
      (m % 2 = 1 → (ReadBack.ofUnits units).closed = false) := by
  obtain ⟨m, hsteps, hm, hmost, hleast⟩ := h.exists_steps
  have hunit : 4 * units * den = 4 * (m * (den * Nat.pow 2 (gridBits units))) := by
    rw [Nat.mul_assoc]
    refine congrArg (4 * ·) ?_
    calc units * den = m * Nat.pow 2 (gridBits units) * den := congrArg (· * den) hsteps
      _ = m * (den * Nat.pow 2 (gridBits units)) := by
        rw [Nat.mul_assoc, Nat.mul_comm (Nat.pow _ _)]
  have hscale (c : Nat) : c * Nat.pow 2 (gridBits units) * den =
      c * (den * Nat.pow 2 (gridBits units)) := by
    rw [Nat.mul_assoc, Nat.mul_comm (Nat.pow _ _)]
  refine ⟨m, gridBits units, hsteps, hmost, hleast, hunit, ?_, ?_, fun hodd => ?_⟩
  · unfold ReadBack.ofUnits
    dsimp only
    rw [hm, Nat.sub_mul, hunit]
    refine congrArg (4 * (m * (den * Nat.pow 2 (gridBits units))) - ·) ?_
    show (if m = 2 ^ 52 ∧ 0 < gridBits units then Nat.pow 2 (gridBits units)
      else 2 * Nat.pow 2 (gridBits units)) * den = _
    split
    · rw [Nat.one_mul, Nat.mul_comm]
    · exact hscale 2
  · unfold ReadBack.ofUnits
    dsimp only
    rw [Nat.add_mul, hunit, hscale]
  · unfold ReadBack.ofUnits
    dsimp only
    rw [hm]
    exact decide_eq_false (by omega)

/-- `roundUnits_of_steps` for a fraction of quarters of a unit. -/
theorem roundUnits_of_quarters {num den k m : Nat} (hden : 0 < den)
    (hleast : k = 0 ∨ 2 ^ 52 * (4 * (den * Nat.pow 2 k)) ≤ num)
    (hmost : num < 2 ^ 53 * (4 * (den * Nat.pow 2 k)))
    (hlow : 4 * (m * (den * Nat.pow 2 k)) ≤ num + 2 * (den * Nat.pow 2 k))
    (hhigh : num ≤ 4 * (m * (den * Nat.pow 2 k)) + 2 * (den * Nat.pow 2 k))
    (htie : 4 * (m * (den * Nat.pow 2 k)) = num + 2 * (den * Nat.pow 2 k) ∨
      num = 4 * (m * (den * Nat.pow 2 k)) + 2 * (den * Nat.pow 2 k) → m % 2 = 0) :
    roundUnits num (4 * den) = m * Nat.pow 2 k := by
  have hfour : 4 * den * Nat.pow 2 k = 4 * (den * Nat.pow 2 k) := Nat.mul_assoc _ _ _
  have hscaled : m * (4 * (den * Nat.pow 2 k)) = 4 * (m * (den * Nat.pow 2 k)) :=
    Nat.mul_left_comm _ _ _
  refine roundUnits_of_steps (by omega) ?_ ?_ ?_ ?_ ?_
  all_goals rw [hfour]
  · exact hleast
  · exact hmost
  · omega
  · omega
  · rw [hscaled]
    exact fun h => htie (by omega)

/-- Whatever lies in the interval of a magnitude is rounded to it. -/
theorem roundUnits_of_contains {units num den : Nat} (hunits : Representable units)
    (hden : 0 < den) (h : (ReadBack.ofUnits units).contains num den = true) :
    roundUnits num (4 * den) = units := by
  obtain ⟨hlow, hhigh, hopen⟩ := ReadBack.ends_of_contains h
  obtain ⟨m, k, hsteps, hmost, hleast, -, hlowest, hhighest, hodd⟩ := hunits.exists_interval den
  rw [hlowest] at hlow hopen
  rw [hhighest] at hhigh hopen
  rw [hsteps]
  have hwidth : 0 < den * Nat.pow 2 k := Nat.mul_pos hden (step_pos k)
  have hbelow := Nat.mul_le_mul_right (den * Nat.pow 2 k) hmost
  rw [Nat.succ_mul] at hbelow
  by_cases hedge : m = 2 ^ 52 ∧ 0 < k
  · rw [if_pos hedge] at hlow
    obtain ⟨rfl, hk⟩ := hedge
    rcases Nat.lt_or_ge num (4 * (2 ^ 52 * (den * Nat.pow 2 k))) with hless | hmore
    · -- below a power of two the grid is twice as fine
      obtain ⟨j, rfl⟩ := Nat.exists_eq_succ_of_ne_zero (Nat.ne_of_gt hk)
      have htwice : den * Nat.pow 2 (j + 1) = 2 * (den * Nat.pow 2 j) := by
        rw [step_succ, Nat.mul_left_comm]
      have hpower : 2 ^ 52 * Nat.pow 2 (j + 1) = 2 ^ 53 * Nat.pow 2 j := by
        rw [step_succ]
        omega
      rw [Nat.succ_eq_add_one, htwice] at hlow hless
      rw [Nat.succ_eq_add_one, hpower]
      exact roundUnits_of_quarters hden (.inr (by omega)) (by omega) (by omega) (by omega)
        fun _ => rfl
    · exact roundUnits_of_quarters hden (.inr (by omega)) (by omega) (by omega) (by omega)
        fun _ => rfl
  · rw [if_neg hedge] at hlow hopen
    have hgrid : k = 0 ∨ 2 ^ 52 * (4 * (den * Nat.pow 2 k)) ≤ num := by
      rcases Nat.eq_zero_or_pos k with hzero | hk
      · exact .inl hzero
      have hmore : 2 ^ 52 < m :=
        Nat.lt_of_le_of_ne (hleast hk) fun heq => hedge ⟨heq.symm, hk⟩
      have hsteps := Nat.mul_le_mul_right (den * Nat.pow 2 k) hmore
      rw [Nat.succ_mul] at hsteps
      exact .inr (by omega)
    refine roundUnits_of_quarters hden hgrid (by omega) (by omega) hhigh fun htie => ?_
    -- the ends belong to the interval of an even number of steps only
    rcases Nat.mod_two_eq_zero_or_one m with heven | hmodd
    · exact heven
    · obtain ⟨hstrict, hstrict'⟩ := hopen (hodd hmodd)
      omega

/-- What differs from a magnitude by less than the `2^54`-th part of it lies in its interval. -/
theorem contains_of_near {units num den : Nat} (hunits : Representable units)
    (hlow : 2 ^ 54 * (4 * units * den) < 2 ^ 54 * num + 4 * units * den)
    (hhigh : 2 ^ 54 * num < 2 ^ 54 * (4 * units * den) + 4 * units * den) :
    (ReadBack.ofUnits units).contains num den = true := by
  obtain ⟨m, k, -, hmost, -, hunit, hlowest, hhighest, -⟩ := hunits.exists_interval den
  have hmore := Nat.mul_le_mul_right (den * Nat.pow 2 k) hmost
  rw [Nat.succ_mul] at hmore
  rw [hunit] at hlow hhigh
  refine ReadBack.contains_of_ends ?_ ?_
  · rw [hlowest]
    split
    · -- just below a power of two the interval is half as wide
      rename_i hedge
      obtain ⟨rfl, -⟩ := hedge
      omega
    · omega
  · rw [hhighest]
    omega

/-! ## Decimals as numbers -/

/-- The number that a decimal writes. -/
def Decimal.value (d : Decimal) : ℚ := d.digits * (10 : ℚ) ^ d.exponent

/-- Whether every fraction for a number is rounded to a magnitude. -/
def ReadsBack (units : Nat) (x : ℚ) : Prop :=
  ∀ num den : Nat, 0 < den → (num : ℚ) / den = x → roundUnits (num * unitsPerOne) den = units

theorem tenPower_pos (e : Int) : 0 < (tenPower e).1 ∧ 0 < (tenPower e).2 := by
  unfold tenPower
  split
  · exact ⟨Nat.pow_pos (by decide), Nat.one_pos⟩
  · exact ⟨Nat.one_pos, Nat.pow_pos (by decide)⟩

theorem tenPower_value (e : Int) : ((tenPower e).1 : ℚ) / (tenPower e).2 = (10 : ℚ) ^ e := by
  unfold tenPower
  split
  · rename_i he
    obtain ⟨n, rfl⟩ := Int.eq_ofNat_of_zero_le he
    show ((Nat.pow 10 n : Nat) : ℚ) / (1 : Nat) = (10 : ℚ) ^ (n : Int)
    rw [zpow_natCast, Nat.cast_one, div_one]
    exact Nat.cast_pow 10 n
  · rename_i he
    obtain ⟨n, hn⟩ : ∃ n : Nat, e = -(n : Int) := ⟨(-e).toNat, by omega⟩
    subst hn
    have htoNat : (- -(n : Int)).toNat = n := by omega
    show ((1 : Nat) : ℚ) / (Nat.pow 10 (- -(n : Int)).toNat : Nat) = (10 : ℚ) ^ (-(n : Int))
    rw [htoNat, zpow_neg, zpow_natCast, Nat.cast_one, one_div]
    exact congrArg _ (Nat.cast_pow 10 n)

/-! ## Neighbours on a decimal grid -/

section Neighbours

variable {tie : Tie} {units : Nat} {e : Int}

/-- A neighbour that is taken is positive and lies in the interval. -/
theorem contains_of_neighbour {d : Decimal} (h : neighbourOnGrid tie units e = some d) :
    d.exponent = e ∧ (ReadBack.ofUnits units).contains
      (4 * d.digits * (tenPower e).1 * unitsPerOne) (tenPower e).2 = true := by
  unfold neighbourOnGrid at h
  dsimp only at h
  split at h
  · rename_i hlower hupper
    obtain rfl := Option.some.inj h
    refine ⟨rfl, ?_⟩
    dsimp only
    split
    · exact (Bool.and_eq_true_iff.mp hlower).1
    · exact hupper
  · rename_i hlower _
    obtain rfl := Option.some.inj h
    exact ⟨rfl, (Bool.and_eq_true_iff.mp hlower).1⟩
  · rename_i hupper
    obtain rfl := Option.some.inj h
    exact ⟨rfl, hupper⟩
  · cases h

theorem readsBack_of_neighbour {d : Decimal} (hunits : Representable units)
    (h : neighbourOnGrid tie units e = some d) : ReadsBack units d.value := by
  obtain ⟨rfl, hcontains⟩ := contains_of_neighbour h
  obtain ⟨htop, hbottom⟩ := tenPower_pos d.exponent
  have hround := roundUnits_of_contains hunits hbottom hcontains
  intro num den hden hvalue
  rw [Decimal.value, ← tenPower_value] at hvalue
  refine Eq.trans (roundUnits_congr hden (by omega) ?_) hround
  have hcross : num * (tenPower d.exponent).2 = d.digits * (tenPower d.exponent).1 * den := by
    have hbottom' : ((tenPower d.exponent).2 : ℚ) ≠ 0 := by exact_mod_cast hbottom.ne'
    have hden' : (den : ℚ) ≠ 0 := by exact_mod_cast hden.ne'
    rw [← mul_div_assoc, div_eq_div_iff hden' hbottom'] at hvalue
    exact_mod_cast hvalue
  calc num * unitsPerOne * (4 * (tenPower d.exponent).2)
      = 4 * (num * (tenPower d.exponent).2) * unitsPerOne := by ring
    _ = 4 * d.digits * (tenPower d.exponent).1 * unitsPerOne * den := by rw [hcross]; ring

/-- On a grid that gives the magnitude seventeen digits, one of its neighbours is in the
interval. -/
theorem neighbour_isSome (hunits : Representable units)
    (hdigits : 10 ^ 16 * (unitsPerOne * (tenPower e).1) ≤ units * (tenPower e).2) :
    (neighbourOnGrid tie units e).isSome = true := by
  obtain ⟨htop, hbottom⟩ := tenPower_pos e
  unfold neighbourOnGrid
  dsimp only
  generalize (tenPower e).1 = top at *
  generalize (tenPower e).2 = bottom at *
  have hsize : 0 < unitsPerOne * top := Nat.mul_pos unitsPerOne_pos htop
  have hsplit := Nat.div_add_mod' (units * bottom) (unitsPerOne * top)
  have hrest := Nat.mod_lt (units * bottom) hsize
  have hlower : 10 ^ 16 ≤ units * bottom / (unitsPerOne * top) :=
    (Nat.le_div_iff_mul_le hsize).mpr hdigits
  generalize units * bottom / (unitsPerOne * top) = lower at *
  generalize units * bottom % (unitsPerOne * top) = rest at *
  have hmagnitude : 4 * units * bottom = 4 * (units * bottom) := Nat.mul_assoc _ _ _
  have hpoint (m : Nat) : 4 * m * top * unitsPerOne = 4 * (m * (unitsPerOne * top)) := by ring
  have hnext : (lower + 1) * (unitsPerOne * top) =
      lower * (unitsPerOne * top) + unitsPerOne * top :=
    Nat.succ_mul _ _
  generalize unitsPerOne * top = size at *
  rcases Nat.lt_or_ge size (2 * rest) with hfar | hnear
  · have hreads :
        (ReadBack.ofUnits units).contains (4 * (lower + 1) * top * unitsPerOne) bottom = true := by
      refine contains_of_near hunits ?_ ?_
      all_goals rw [hpoint, hnext, hmagnitude]; omega
    rw [hreads]
    cases (ReadBack.ofUnits units).contains (4 * lower * top * unitsPerOne) bottom &&
      decide (0 < lower) <;> rfl
  · -- the lower neighbour is half a grid step away at most
    have hreads :
        (ReadBack.ofUnits units).contains (4 * lower * top * unitsPerOne) bottom = true := by
      refine contains_of_near hunits ?_ ?_
      all_goals rw [hpoint, hmagnitude]; omega
    have hpositive : decide (0 < lower) = true := decide_eq_true (by omega)
    rw [hreads, hpositive]
    cases (ReadBack.ofUnits units).contains (4 * (lower + 1) * top * unitsPerOne) bottom <;> rfl

end Neighbours

/-! ## The shortest decimal -/

/-- The exponent of a magnitude is not too large. -/
theorem tenPower_decimalExponent_le {units : Nat} (hpos : 0 < units) :
    (10 : ℚ) ^ decimalExponent units ≤ (units : ℚ) / unitsPerOne := by
  have hone : (0 : ℚ) < unitsPerOne := by exact_mod_cast unitsPerOne_pos
  rw [le_div_iff₀ hone]
  unfold decimalExponent
  split
  · -- as many digits as stand before the point
    rename_i hlarge
    have hwhole : 1 ≤ units / unitsPerOne := (Nat.one_le_div_iff unitsPerOne_pos).mpr hlarge
    obtain ⟨n, hn⟩ : ∃ n, (decimalDigits (units / unitsPerOne)).length = n + 1 :=
      Nat.exists_eq_succ_of_ne_zero (Nat.ne_of_gt Nat.length_toDigits_pos)
    have hpower : 10 ^ n ≤ units / unitsPerOne := by
      rcases Nat.eq_zero_or_pos n with rfl | hmore
      · exact hwhole
      · refine Nat.le_of_not_lt fun hless => ?_
        have hfew := (Nat.length_toDigits_le_iff (by decide) hmore).mpr hless
        unfold decimalDigits at hn
        omega
    have hnat : 10 ^ n * unitsPerOne ≤ units :=
      (Nat.mul_le_mul_right _ hpower).trans (Nat.div_mul_le_self _ _)
    have hexponent : ((n + 1 : Nat) : Int) - 1 = (n : Int) := by omega
    rw [hn, hexponent, zpow_natCast]
    exact_mod_cast hnat
  · -- as many places as bring the magnitude to one
    have hfound : ((List.range 330).find? fun p => unitsPerOne ≤ units * Nat.pow 10 p).isSome =
        true := by
      refine List.find?_isSome.mpr ⟨329, by decide, decide_eq_true ?_⟩
      have hbound : unitsPerOne ≤ Nat.pow 10 329 := by decide +kernel
      exact hbound.trans (Nat.le_mul_of_pos_left _ hpos)
    obtain ⟨p, hp⟩ := Option.isSome_iff_exists.mp hfound
    have hreach : unitsPerOne ≤ units * Nat.pow 10 p := by
      have hchecked := List.find?_some hp
      exact of_decide_eq_true hchecked
    have hplaces : (10 : ℚ) ^ p * (10 : ℚ) ^ (-(p : Int)) = 1 := by
      rw [zpow_neg, zpow_natCast]
      exact mul_inv_cancel₀ (by positivity)
    have hcast : (unitsPerOne : ℚ) ≤ units * (10 : ℚ) ^ p := by
      have hpow : ((Nat.pow 10 p : Nat) : ℚ) = (10 : ℚ) ^ p := Nat.cast_pow 10 p
      rw [← hpow]
      exact_mod_cast hreach
    rw [hp]
    show (10 : ℚ) ^ Int.negOfNat p * unitsPerOne ≤ units
    have hexponent : Int.negOfNat p = -(p : Int) := Int.negOfNat_eq
    rw [hexponent]
    calc (10 : ℚ) ^ (-(p : Int)) * unitsPerOne
        ≤ (10 : ℚ) ^ (-(p : Int)) * (units * (10 : ℚ) ^ p) :=
          mul_le_mul_of_nonneg_left hcast (by positivity)
      _ = units * ((10 : ℚ) ^ p * (10 : ℚ) ^ (-(p : Int))) := by ring
      _ = units := by rw [hplaces, mul_one]

/-- The shortest decimal reads back as the magnitude. -/
theorem readsBack_shortest (tie : Tie) {units : Nat} (hunits : Representable units)
    (hpos : 0 < units) : ReadsBack units (Decimal.shortest tie units).value := by
  have hsome : ((List.range 17).findSome? fun n =>
      neighbourOnGrid tie units (decimalExponent units - (n : Nat))).isSome = true := by
    refine List.findSome?_isSome_iff.mpr ⟨16, by decide, neighbour_isSome hunits ?_⟩
    -- the grid is sixteen places finer than the exponent
    have hle := tenPower_decimalExponent_le hpos
    generalize decimalExponent units = e at *
    obtain ⟨_, hbottom⟩ := tenPower_pos (e - (16 : Nat))
    have hvalue := tenPower_value (e - (16 : Nat))
    rw [zpow_sub₀ (by norm_num), zpow_natCast] at hvalue
    have hone : (0 : ℚ) < unitsPerOne := by exact_mod_cast unitsPerOne_pos
    have hbottom' : (0 : ℚ) < (tenPower (e - (16 : Nat))).2 := by exact_mod_cast hbottom
    rw [div_eq_iff hbottom'.ne'] at hvalue
    rw [le_div_iff₀ hone] at hle
    have hcast : (10 : ℚ) ^ 16 * (unitsPerOne * (tenPower (e - (16 : Nat))).1) ≤
        units * (tenPower (e - (16 : Nat))).2 := by
      rw [hvalue]
      calc (10 : ℚ) ^ 16 *
            (unitsPerOne * ((10 : ℚ) ^ e / (10 : ℚ) ^ 16 * (tenPower (e - (16 : Nat))).2))
          = (10 : ℚ) ^ e * unitsPerOne * (tenPower (e - (16 : Nat))).2 := by field_simp
        _ ≤ units * (tenPower (e - (16 : Nat))).2 :=
          mul_le_mul_of_nonneg_right hle hbottom'.le
    exact_mod_cast hcast
  obtain ⟨d, hd⟩ := Option.isSome_iff_exists.mp hsome
  unfold Decimal.shortest
  dsimp only
  rw [hd]
  obtain ⟨n, _, hn⟩ := List.exists_of_findSome?_eq_some hd
  exact readsBack_of_neighbour hunits hn

theorem Decimal.value_strip (fuel : Nat) (d : Decimal) : (d.strip fuel).value = d.value := by
  induction fuel generalizing d with
  | zero => rfl
  | succ fuel ih =>
      unfold Decimal.strip
      split
      · rename_i hzero
        have hdigits : (d.digits : ℚ) = (d.digits / 10 : Nat) * 10 := by
          exact_mod_cast (Nat.div_mul_cancel (Nat.dvd_of_mod_eq_zero hzero.2)).symm
        rw [ih, Decimal.value, Decimal.value, zpow_add_one₀ (by norm_num), hdigits]
        ring
      · rfl

/-! ## Text -/

theorem digitsValue_eq (cs : List Char) : digitsValue cs = Nat.ofDigitChars 10 cs 0 := rfl

theorem digitsValue_decimalDigits (n : Nat) : digitsValue (decimalDigits n) = n :=
  Nat.ofDigitChars_ten_toDigits

theorem digitsValue_zeros_append (n : Nat) (cs : List Char) :
    digitsValue (List.replicate n '0' ++ cs) = digitsValue cs := by
  rw [digitsValue_eq, Nat.ofDigitChars_append, Nat.ofDigitChars_replicate_zero, Nat.mul_zero,
    digitsValue_eq]

theorem digitsValue_append_zeros (cs : List Char) (n : Nat) :
    digitsValue (cs ++ List.replicate n '0') = 10 ^ n * digitsValue cs := by
  rw [digitsValue_eq, Nat.ofDigitChars_append, Nat.ofDigitChars_replicate_zero, digitsValue_eq]

/-- Digits, or digits around a point, as two lists. -/
structure IsDecimalText (cs whole fraction : List Char) : Prop where
  whole_ne_nil : whole ≠ []
  isDigit_whole : ∀ c ∈ whole, c.isDigit = true
  isDigit_fraction : ∀ c ∈ fraction, c.isDigit = true
  text : cs = whole ∧ fraction = [] ∨ cs = whole ++ '.' :: fraction

theorem IsDecimalText.ne_nil {cs whole fraction : List Char} (h : IsDecimalText cs whole fraction) :
    cs ≠ [] := by
  rcases h.text with ⟨rfl, _⟩ | rfl
  · exact h.whole_ne_nil
  · simp

theorem isDigit_decimalDigits (n : Nat) : ∀ c ∈ decimalDigits n, c.isDigit = true :=
  fun _ hc => Nat.isDigit_of_mem_toDigits (by decide) (by decide) hc

theorem isDigit_zeros (n : Nat) : ∀ c ∈ List.replicate n '0', c.isDigit = true := by
  intro c hc
  rw [List.eq_of_mem_replicate hc]
  rfl

/-- The text of a decimal writes its value. -/
theorem Decimal.exists_positional (d : Decimal) :
    ∃ whole fraction, IsDecimalText d.positional whole fraction ∧
      (digitsValue (whole ++ fraction) : ℚ) / (Nat.pow 10 fraction.length : Nat) = d.value := by
  unfold Decimal.positional
  dsimp only
  split
  · -- zeros stand before the point
    rename_i hexponent
    obtain ⟨n, hn⟩ := Int.eq_ofNat_of_zero_le hexponent
    rw [hn]
    refine ⟨decimalDigits d.digits ++ List.replicate n '0', [], ⟨?_, ?_, ?_, .inl ⟨rfl, rfl⟩⟩, ?_⟩
    · exact List.append_ne_nil_of_left_ne_nil Nat.toDigits_ne_nil _
    · exact List.forall_mem_append.mpr ⟨isDigit_decimalDigits _, isDigit_zeros n⟩
    · exact fun _ h => absurd h (by simp)
    · rw [List.append_nil, digitsValue_append_zeros, digitsValue_decimalDigits, Decimal.value, hn,
        zpow_natCast]
      show ((10 ^ n * d.digits : Nat) : ℚ) / (1 : Nat) = d.digits * (10 : ℚ) ^ n
      push_cast
      ring
  · rename_i hexponent
    obtain ⟨n, hn⟩ : ∃ n : Nat, d.exponent = -(n : Int) := ⟨(-d.exponent).toNat, by omega⟩
    have hplaces : (-d.exponent).toNat = n := by omega
    rw [hplaces]
    generalize hpadded : List.replicate (n + 1 - (decimalDigits d.digits).length) '0' ++
      decimalDigits d.digits = padded
    have hlength : n + 1 ≤ padded.length := by
      rw [← hpadded, List.length_append, List.length_replicate]
      omega
    have hdigits : ∀ c ∈ padded, c.isDigit = true := by
      rw [← hpadded]
      exact List.forall_mem_append.mpr ⟨isDigit_zeros _, isDigit_decimalDigits _⟩
    refine ⟨padded.take (padded.length - n), padded.drop (padded.length - n),
      ⟨?_, ?_, ?_, .inr rfl⟩, ?_⟩
    · refine List.ne_nil_of_length_pos ?_
      rw [List.length_take]
      omega
    · exact fun c hc => hdigits c (List.mem_of_mem_take hc)
    · exact fun c hc => hdigits c (List.mem_of_mem_drop hc)
    · have hfraction : (padded.drop (padded.length - n)).length = n := by
        rw [List.length_drop]
        omega
      rw [List.take_append_drop, hfraction, ← hpadded, digitsValue_zeros_append,
        digitsValue_decimalDigits, Decimal.value, hn, zpow_neg, zpow_natCast, div_eq_mul_inv]
      exact congrArg (fun x : ℚ => (d.digits : ℚ) * x⁻¹) (Nat.cast_pow 10 n)

/-- The text of a magnitude reads back as that magnitude. -/
theorem exists_positionalText (tie : Tie) {units : Nat} (hunits : Representable units) :
    ∃ whole fraction, IsDecimalText (positionalText tie units) whole fraction ∧
      Binary64.ofDigits whole fraction = .finite false units := by
  unfold positionalText
  split
  · rename_i hzero
    subst hzero
    refine ⟨['0'], [], ⟨by simp, List.forall_mem_singleton.mpr rfl, by simp, .inl ⟨rfl, rfl⟩⟩, ?_⟩
    have hread : roundUnits (digitsValue (['0'] ++ []) * unitsPerOne) (Nat.pow 10 0) = 0 := by
      have hdigits : digitsValue (['0'] ++ []) = 0 := rfl
      rw [hdigits, Nat.zero_mul]
      rfl
    unfold Binary64.ofDigits Binary64.ofRatio Binary64.ofUnitsRatio
    dsimp only
    rw [List.length_nil, hread, if_pos hunits.1]
  · rename_i hpos
    obtain ⟨whole, fraction, htext, hvalue⟩ :=
      ((Decimal.shortest tie units).strip 20).exists_positional
    refine ⟨whole, fraction, htext, ?_⟩
    have hread : roundUnits (digitsValue (whole ++ fraction) * unitsPerOne)
        (Nat.pow 10 fraction.length) = units := by
      refine readsBack_shortest tie hunits (Nat.pos_of_ne_zero hpos) _ _
        (Nat.pow_pos (by decide)) ?_
      rw [hvalue, Decimal.value_strip]
    unfold Binary64.ofDigits Binary64.ofRatio Binary64.ofUnitsRatio
    dsimp only
    rw [hread, if_pos hunits.1]

end Tenure.Numeric
