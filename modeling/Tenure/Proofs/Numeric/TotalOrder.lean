import Tenure.Numeric.Binary64

/-!
# The total order on the interchange form

Without the sign bit, the bits of a double are a number that grows with the magnitude: from
one fraction to the next, and from the last fraction of an exponent to the first one of the
next exponent, the last of which is that of infinity and the NaNs. So the total order compares
the bits as numbers with a sign, the numbers of negative doubles mirrored.

* `placeOf_lt_succ`, `placeOf_lt` — the step to the next number of 63 bits, and any steps;
* `totalLE_ofBits` — the total order, for any bits.
-/

namespace Tenure.Numeric.Binary64

/-- The place of a magnitude with these fields. -/
def placeOfFields (exponent fraction : Nat) : Nat :=
  if exponent = 2047 then overflowUnits + fraction
  else if exponent = 0 then fraction
  else (fractionBound + fraction) * Nat.pow 2 (exponent - 1)

/-- The place of a magnitude with these 63 bits. -/
def placeOf (bits : Nat) : Nat := placeOfFields (bits / fractionBound) (bits % fractionBound)

/-- Bits as a number with a sign, mirrored for a negative double so that negative zero stands
just below positive zero. -/
def signedBits (bits : Nat) : Int :=
  if bits / signBound % 2 = 1 then -((bits % signBound : Nat) : Int) - 1
  else ((bits % signBound : Nat) : Int)

theorem fractionBound_eq : fractionBound = 4503599627370496 := rfl

theorem signBound_eq : signBound = 9223372036854775808 := rfl

/-! ## Magnitudes -/

theorem placeOfFields_lt_fraction (exponent : Nat) {f f' : Nat} (h : f < f') :
    placeOfFields exponent f < placeOfFields exponent f' := by
  unfold placeOfFields
  split
  · exact Nat.add_lt_add_left h _
  · split
    · exact h
    · exact Nat.mul_lt_mul_of_pos_right (Nat.add_lt_add_left h _) (Nat.two_pow_pos _)

/-- The largest fraction of an exponent is below the smallest one of the next exponent. -/
theorem placeOfFields_lt_exponent {exponent f : Nat} (he : exponent < 2047)
    (hf : f < fractionBound) : placeOfFields exponent f < placeOfFields (exponent + 1) 0 := by
  have hoverflow : overflowUnits = fractionBound * Nat.pow 2 (2045 + 1) := by
    decide +kernel
  cases exponent with
  | zero => simpa [placeOfFields] using hf
  | succ k =>
      have hscaled : (fractionBound + f) * Nat.pow 2 k < fractionBound * Nat.pow 2 (k + 1) := by
        calc (fractionBound + f) * Nat.pow 2 k
            < (fractionBound * 2) * Nat.pow 2 k :=
              Nat.mul_lt_mul_of_pos_right (by omega) (Nat.two_pow_pos k)
          _ = fractionBound * Nat.pow 2 (k + 1) := by
              rw [Nat.mul_assoc, Nat.mul_comm 2]
              rfl
      have hleft : placeOfFields (k + 1) f = (fractionBound + f) * Nat.pow 2 k := by
        unfold placeOfFields
        rw [if_neg (Nat.ne_of_lt he), if_neg (Nat.succ_ne_zero k), Nat.add_sub_cancel]
      have hright : placeOfFields (k + 2) 0 = fractionBound * Nat.pow 2 (k + 1) := by
        unfold placeOfFields
        split
        · rename_i hlast
          obtain rfl : k = 2045 := by omega
          rw [Nat.add_zero, hoverflow]
        · rfl
      rw [hleft, hright]
      exact hscaled

theorem placeOf_lt_succ {bits : Nat} (h : bits + 1 < signBound) :
    placeOf bits < placeOf (bits + 1) := by
  have hfraction : bits % fractionBound < fractionBound := Nat.mod_lt _ (Nat.two_pow_pos 52)
  unfold placeOf
  by_cases hlast : bits % fractionBound + 1 = fractionBound
  · have hexponent : (bits + 1) / fractionBound = bits / fractionBound + 1 := by
      rw [fractionBound_eq] at *
      omega
    have hfirst : (bits + 1) % fractionBound = 0 := by
      rw [fractionBound_eq] at *
      omega
    rw [hexponent, hfirst]
    refine placeOfFields_lt_exponent ?_ hfraction
    rw [fractionBound_eq, signBound_eq] at *
    omega
  · have hexponent : (bits + 1) / fractionBound = bits / fractionBound := by
      rw [fractionBound_eq] at *
      omega
    have hnext : (bits + 1) % fractionBound = bits % fractionBound + 1 := by
      rw [fractionBound_eq] at *
      omega
    rw [hexponent, hnext]
    exact placeOfFields_lt_fraction _ (Nat.lt_succ_self _)

theorem placeOf_lt {a b : Nat} (h : a < b) (hb : b < signBound) : placeOf a < placeOf b := by
  induction h with
  | refl => exact placeOf_lt_succ hb
  | step h ih => exact Nat.lt_trans (ih (Nat.lt_of_succ_lt hb)) (placeOf_lt_succ hb)

theorem placeOf_le_iff {a b : Nat} (ha : a < signBound) (hb : b < signBound) :
    placeOf a ≤ placeOf b ↔ a ≤ b := by
  refine ⟨fun h => Nat.not_lt.mp fun hlt => ?_, fun h => ?_⟩
  · exact Nat.not_lt.mpr h (placeOf_lt hlt ha)
  · rcases Nat.eq_or_lt_of_le h with rfl | hlt
    · exact Nat.le_refl _
    · exact Nat.le_of_lt (placeOf_lt hlt hb)

/-! ## All bits -/

theorem negative_ofBits (bits : Nat) :
    (ofBits bits).negative = decide (bits / signBound % 2 = 1) := by
  unfold ofBits
  dsimp only
  split
  · split <;> rfl
  · split <;> rfl

theorem magnitudeRank_ofBits (bits : Nat) :
    (ofBits bits).magnitudeRank = placeOf (bits % signBound) := by
  have hexponent : bits % signBound / fractionBound = bits / fractionBound % 2048 := by
    rw [fractionBound_eq, signBound_eq]
    omega
  have hfraction : bits % signBound % fractionBound = bits % fractionBound := by
    rw [fractionBound_eq, signBound_eq]
    omega
  unfold placeOf placeOfFields ofBits
  rw [hexponent, hfraction]
  dsimp only
  split
  · split
    · rename_i hzero
      rw [hzero]
      exact (Nat.add_zero _).symm
    · rfl
  · split <;> rfl

/-- **The total order compares bits.** Of two doubles in the interchange form the one stands no
later whose bits, as a number with a sign, are no larger: negative values before positive ones,
negative zero before positive zero, NaNs outermost. -/
theorem totalLE_ofBits (a b : Nat) :
    (ofBits a).totalLE (ofBits b) = decide (signedBits a ≤ signedBits b) := by
  have hbound : ∀ n, n % signBound < signBound := fun n => Nat.mod_lt _ (Nat.two_pow_pos 63)
  have hab := placeOf_le_iff (hbound a) (hbound b)
  have hba := placeOf_le_iff (hbound b) (hbound a)
  unfold totalLE rank signedBits
  rw [negative_ofBits, negative_ofBits, magnitudeRank_ofBits, magnitudeRank_ofBits,
    decide_eq_decide]
  generalize a % signBound = m at hab hba ⊢
  generalize b % signBound = n at hab hba ⊢
  by_cases ha : a / signBound % 2 = 1 <;> by_cases hb : b / signBound % 2 = 1
  all_goals
    simp only [ha, hb, decide_true, decide_false, Bool.false_eq_true, if_true, if_false]
    omega

end Tenure.Numeric.Binary64
