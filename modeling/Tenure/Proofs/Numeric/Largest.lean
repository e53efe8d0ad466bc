import Tenure.Proofs.Numeric.Arithmetic

/-!
# Multiplying by the largest double

The largest double is `2^1024` less its `2^53`-th part, which is no more than what separates two
neighbouring doubles. So its product with a positive double, rounded, is less than `2^1024` times
that double, and no less than `2^1024` times any smaller one: the products keep the order of the
doubles as long as they are finite, and they are so exactly up to one.

* `largestTimes_lt`, `le_largestTimes` — the product between `2^1024` times two doubles;
* `largestTimes_lt_iff` — when it is finite;
* `Binary64.rank_largest_mul_lt_iff` — when two products are in order.
-/

namespace Tenure.Numeric

variable {u v : Nat}

/-- The largest double, in units. -/
def largestUnits : Nat := (Nat.pow 2 53 - 1) * Nat.pow 2 2045

theorem largestUnits_scaled : 2 ^ 53 * largestUnits = (2 ^ 53 - 1) * overflowUnits := by
  decide +kernel

theorem overflowUnits_pos : 0 < overflowUnits :=
  Nat.lt_of_lt_of_le (Nat.mul_pos (by decide) unitsPerOne_pos) overflowUnits_large

theorem le_largestUnits : 2 ^ 52 * unitsPerOne ≤ largestUnits := by
  have hscaled := largestUnits_scaled
  have hlarge := overflowUnits_large
  omega

theorem representable_unitsPerOne : Representable unitsPerOne := by
  have hround : roundUnits unitsPerOne 1 = unitsPerOne := by
    unfold unitsPerOne
    generalize 1074 = k
    have hstep := roundUnits_mul_step (m := 1) (k := k) (by decide)
    rwa [Nat.one_mul] at hstep
  have hfits : unitsPerOne < overflowUnits := by
    have hpos := unitsPerOne_pos
    have hlarge := overflowUnits_large
    omega
  rw [← hround]
  exact representable_roundUnits Nat.one_pos (by rwa [hround])

/-! ## Neighbouring doubles -/

/-- The step to a larger double makes up for the `2^53`-th part. -/
theorem Representable.mul_le_of_lt (hu : Representable u) (hv : Representable v) (h : u < v) :
    2 ^ 53 * u ≤ (2 ^ 53 - 1) * v := by
  obtain ⟨m, hsteps, -, hmost, -⟩ := hu.exists_steps
  have hstep := hu.add_step_le hv h
  have hlast : m * Nat.pow 2 (gridBits u) ≤ (2 ^ 53 - 1) * Nat.pow 2 (gridBits u) :=
    Nat.mul_le_mul_right _ (by omega)
  omega

/-- A double times `2^1024` is on its grid, if only it were not too large. -/
theorem Representable.roundUnits_scaled (hu : Representable u) :
    roundUnits (overflowUnits * u) unitsPerOne * unitsPerOne = overflowUnits * u := by
  obtain ⟨k, -, hk⟩ := exists_overflowUnits_eq
  obtain ⟨m, hsteps, -, hmost, -⟩ := hu.exists_steps
  have hshift : Nat.pow 2 k * u = m * Nat.pow 2 (k + gridBits u) := by
    have hpower : Nat.pow 2 (k + gridBits u) = Nat.pow 2 k * Nat.pow 2 (gridBits u) :=
      Nat.pow_add 2 k (gridBits u)
    rw [hpower, Nat.mul_left_comm, ← hsteps]
  have hexact : roundUnits (overflowUnits * u) unitsPerOne = Nat.pow 2 k * u := by
    have hsame : overflowUnits * u * 1 = Nat.pow 2 k * u * unitsPerOne := by
      rw [Nat.mul_one, hk, Nat.mul_right_comm]
    rw [roundUnits_congr unitsPerOne_pos Nat.one_pos hsame, hshift, roundUnits_mul_step hmost]
  rw [hexact, hk, Nat.mul_right_comm]

/-! ## Products -/

/-- The product with the largest double, rounded. -/
def largestTimes (u : Nat) : Nat := roundUnits (largestUnits * u) unitsPerOne

theorem largestTimes_mono (h : u ≤ v) : largestTimes u ≤ largestTimes v :=
  roundUnits_mono unitsPerOne_pos (Nat.mul_le_mul_left _ h)

theorem largestTimes_lt (hpos : 0 < u) : largestTimes u * unitsPerOne < overflowUnits * u := by
  have hlarge : 2 ^ 52 * unitsPerOne ≤ largestUnits * u :=
    Nat.le_trans le_largestUnits (Nat.le_mul_of_pos_right _ hpos)
  -- rounding adds at most the `2^53`-th part of a product that lacks the `2^53`-th part
  have hnear := (near_roundUnits unitsPerOne_pos (.inr hlarge)).le
  have hscaled : 2 ^ 53 * (largestUnits * u) = (2 ^ 53 - 1) * (overflowUnits * u) := by
    rw [← Nat.mul_assoc, largestUnits_scaled, Nat.mul_assoc]
  have hexact : 0 < overflowUnits * u := Nat.mul_pos overflowUnits_pos hpos
  unfold largestTimes
  omega

theorem le_largestTimes (hu : Representable u) (hv : Representable v) (h : u < v) :
    overflowUnits * u ≤ largestTimes v * unitsPerOne := by
  have hproduct : overflowUnits * u ≤ largestUnits * v := by
    refine Nat.le_of_mul_le_mul_left (c := 2 ^ 53) ?_ (by decide)
    calc 2 ^ 53 * (overflowUnits * u)
        = overflowUnits * (2 ^ 53 * u) := Nat.mul_left_comm ..
      _ ≤ overflowUnits * ((2 ^ 53 - 1) * v) := Nat.mul_le_mul_left _ (hu.mul_le_of_lt hv h)
      _ = (2 ^ 53 - 1) * overflowUnits * v := by rw [← Nat.mul_assoc, Nat.mul_comm overflowUnits]
      _ = 2 ^ 53 * (largestUnits * v) := by rw [← largestUnits_scaled, Nat.mul_assoc]
  rw [← hu.roundUnits_scaled]
  exact Nat.mul_le_mul_right _ (roundUnits_mono unitsPerOne_pos hproduct)

theorem largestTimes_lt_iff (hu : Representable u) (hpos : 0 < u) :
    largestTimes u < overflowUnits ↔ u ≤ unitsPerOne := by
  constructor
  · intro h
    refine Nat.le_of_not_lt fun hmore => ?_
    have hreaches := le_largestTimes representable_unitsPerOne hu hmore
    exact Nat.not_lt.mpr (Nat.le_of_mul_le_mul_right hreaches unitsPerOne_pos) h
  · intro h
    have hshort := Nat.lt_of_lt_of_le (largestTimes_lt hpos) (Nat.mul_le_mul_left overflowUnits h)
    exact Nat.lt_of_mul_lt_mul_right hshort

namespace Binary64

/-- A finite double above zero. -/
def IsPositive (x : Binary64) : Prop := ∃ u, x = .finite false u ∧ 0 < u ∧ Representable u

theorem IsPositive.rank_injective {x y : Binary64} (hx : x.IsPositive) (hy : y.IsPositive)
    (h : x.rank = y.rank) : x = y := by
  obtain ⟨u, rfl, -⟩ := hx
  obtain ⟨v, rfl, -⟩ := hy
  exact congrArg _ (Int.ofNat_inj.mp h)

/-- Products with the largest double keep the order of positive doubles up to one, and are all the
same above it. -/
theorem rank_largest_mul_lt_iff {x y : Binary64} (hx : x.IsPositive) (hy : y.IsPositive) :
    (largest * x).rank < (largest * y).rank ↔ x.rank < y.rank ∧ x.rank ≤ unitsPerOne := by
  obtain ⟨u, rfl, hpos, hu⟩ := hx
  obtain ⟨v, rfl, -, hv⟩ := hy
  have hrank (w : Nat) : (largest * .finite false w).rank =
      (min (largestTimes w) overflowUnits : Nat) := by
    show (.finite false largestUnits * .finite false w : Binary64).rank = _
    rw [mul_finite, rank_ofUnitsRatio, largestTimes]
  have hfinite := largestTimes_lt_iff hu hpos
  show _ ↔ (u : Int) < v ∧ (u : Int) ≤ unitsPerOne
  rw [hrank, hrank]
  constructor
  · intro h
    refine ⟨Int.ofNat_lt.mpr (Nat.lt_of_not_le fun hle => ?_), ?_⟩
    · have hmono := largestTimes_mono hle
      omega
    · exact Int.ofNat_le.mpr (hfinite.mp (by omega))
  · rintro ⟨hlt, hone⟩
    have hless : largestTimes u < largestTimes v :=
      Nat.lt_of_mul_lt_mul_right <| Nat.lt_of_lt_of_le (largestTimes_lt hpos)
        (le_largestTimes hu hv (Int.ofNat_lt.mp hlt))
    have hfits := hfinite.mpr (Int.ofNat_le.mp hone)
    omega

end Binary64

end Tenure.Numeric
