import Mathlib.Tactic.Ring
import Tenure.Duration

/-!
# Durations in two words

A duration as two words, whole seconds in 64 bits and the nanoseconds beyond them in 32, and the
arithmetic on these words alone:

* **multiplication** takes both words times the factor and carries the seconds that the
  nanoseconds make up; it fails when a word of seconds overflows;
* **division** divides both words and carries the seconds that are left over into the nanoseconds.

No intermediate word wraps, so both are the arithmetic on the count of nanoseconds, for every
duration and every factor of 32 bits (`limbs_scale?`, `limbs_divide`).
-/

namespace Tenure.Duration

/-- Whole seconds, and nanoseconds. -/
@[ext] structure Limbs where
  secs : UInt64
  nanos : UInt32
deriving DecidableEq

/-- The two words of a duration. -/
def limbs (d : Duration) : Limbs := ⟨.ofNat d.secs, .ofNat d.subsecNanos⟩

namespace Limbs

/-- The nanoseconds that two words come to. -/
def count (l : Limbs) : Nat := l.secs.toNat * nanosPerSecond + l.nanos.toNat

/-- The nanoseconds of a second, as a word. -/
def second : UInt64 := 1000000000

/-- The product of two words, if it is one. -/
def product? (a b : UInt64) : Option UInt64 :=
  if a.toNat * b.toNat < UInt64.size then some (a * b) else none

/-- The sum of two words, if it is one. -/
def sum? (a b : UInt64) : Option UInt64 :=
  if a.toNat + b.toNat < UInt64.size then some (a + b) else none

/-- Both words times a factor, with the seconds that the nanoseconds make up carried. -/
def scale? (l : Limbs) (k : UInt32) : Option Limbs := do
  let nanos := l.nanos.toUInt64 * k.toUInt64
  let product ← product? l.secs k.toUInt64
  let secs ← sum? product (nanos / second)
  return ⟨secs, (nanos % second).toUInt32⟩

/-- Both words divided, with the seconds that are left over carried into the nanoseconds. -/
def divide (l : Limbs) (k : UInt32) : Limbs :=
  let carried := (l.secs % k.toUInt64 * second + (l.nanos % k).toUInt64) / k.toUInt64
  ⟨l.secs / k.toUInt64, l.nanos / k + carried.toUInt32⟩

end Limbs

/-! ## Words and counts -/

theorem secs_lt (d : Duration) : d.secs < UInt64.size :=
  Nat.div_lt_of_lt_mul (Nat.mul_comm .. ▸ d.nanos_lt)

theorem subsecNanos_lt (d : Duration) : d.subsecNanos < nanosPerSecond :=
  Nat.mod_lt _ (by decide)

theorem secs_limbs (d : Duration) : d.limbs.secs.toNat = d.secs :=
  UInt64.toNat_ofNat_of_lt' d.secs_lt

theorem nanos_limbs (d : Duration) : d.limbs.nanos.toNat = d.subsecNanos :=
  UInt32.toNat_ofNat_of_lt' (Nat.lt_trans d.subsecNanos_lt (by decide))

theorem count_limbs (d : Duration) : d.limbs.count = d.nanos := by
  rw [Limbs.count, secs_limbs, nanos_limbs]
  exact Nat.div_add_mod' d.nanos nanosPerSecond

/-- Words whose nanoseconds make up no second are those of the duration that they come to. -/
theorem eq_limbs {l : Limbs} {d : Duration} (hnanos : l.nanos.toNat < nanosPerSecond)
    (hcount : l.count = d.nanos) : l = d.limbs := by
  have hrest : d.limbs.nanos.toNat < nanosPerSecond := d.nanos_limbs.symm ▸ d.subsecNanos_lt
  rw [← count_limbs] at hcount
  simp only [Limbs.count, nanosPerSecond] at hcount hnanos hrest
  apply Limbs.ext
  · apply UInt64.toNat_inj.mp
    omega
  · apply UInt32.toNat_inj.mp
    omega

namespace Limbs

variable {l : Limbs} {a b : UInt64} {k : UInt32}

theorem toNat_mul (h : a.toNat * b.toNat < UInt64.size) : (a * b).toNat = a.toNat * b.toNat := by
  rw [UInt64.toNat_mul, Nat.mod_eq_of_lt h]

theorem toNat_add (h : a.toNat + b.toNat < UInt64.size) : (a + b).toNat = a.toNat + b.toNat := by
  rw [UInt64.toNat_add, Nat.mod_eq_of_lt h]

/-! ## Multiplication -/

/-- The nanoseconds times a factor do not leave a word. -/
theorem toNat_nanos_mul (l : Limbs) (k : UInt32) :
    (l.nanos.toUInt64 * k.toUInt64).toNat = l.nanos.toNat * k.toNat := by
  have hbound : l.nanos.toNat * k.toNat < UInt64.size :=
    Nat.mul_lt_mul'' l.nanos.toNat_lt k.toNat_lt
  rw [toNat_mul (by simpa using hbound)]
  simp

/-- The seconds of the product: those of the seconds and those that the nanoseconds make up. -/
def scaledSecs (l : Limbs) (k : UInt32) : Nat :=
  l.secs.toNat * k.toNat + l.nanos.toNat * k.toNat / nanosPerSecond

theorem count_mul (l : Limbs) (k : UInt32) :
    l.count * k.toNat =
      scaledSecs l k * nanosPerSecond + l.nanos.toNat * k.toNat % nanosPerSecond := by
  calc l.count * k.toNat
      = l.secs.toNat * k.toNat * nanosPerSecond + l.nanos.toNat * k.toNat := by
        rw [count]
        ring
    _ = l.secs.toNat * k.toNat * nanosPerSecond +
          (l.nanos.toNat * k.toNat / nanosPerSecond * nanosPerSecond +
            l.nanos.toNat * k.toNat % nanosPerSecond) := by rw [Nat.div_add_mod']
    _ = scaledSecs l k * nanosPerSecond + l.nanos.toNat * k.toNat % nanosPerSecond := by
        rw [scaledSecs]
        ring

theorem toNat_carried (l : Limbs) (k : UInt32) :
    (l.nanos.toUInt64 * k.toUInt64 / second).toNat =
      l.nanos.toNat * k.toNat / nanosPerSecond := by
  rw [UInt64.toNat_div, toNat_nanos_mul]
  rfl

theorem toNat_remaining (l : Limbs) (k : UInt32) :
    (l.nanos.toUInt64 * k.toUInt64 % second).toUInt32.toNat =
      l.nanos.toNat * k.toNat % nanosPerSecond := by
  have hsmall : l.nanos.toNat * k.toNat % nanosPerSecond < nanosPerSecond :=
    Nat.mod_lt _ (by decide)
  rw [UInt64.toNat_toUInt32, UInt64.toNat_mod, toNat_nanos_mul]
  exact Nat.mod_eq_of_lt (Nat.lt_trans hsmall (by decide))

/-- A product whose seconds fit a word comes to the count times the factor. -/
theorem exists_scale? (h : scaledSecs l k < UInt64.size) :
    ∃ scaled, l.scale? k = some scaled ∧ scaled.nanos.toNat < nanosPerSecond ∧
      scaled.count = l.count * k.toNat := by
  have hproduct : l.secs.toNat * k.toUInt64.toNat < UInt64.size := by
    rw [UInt32.toNat_toUInt64]
    exact Nat.lt_of_le_of_lt (Nat.le_add_right _ _) h
  have hsecs : (l.secs * k.toUInt64).toNat = l.secs.toNat * k.toNat := by
    rw [toNat_mul hproduct, UInt32.toNat_toUInt64]
  have hsum : (l.secs * k.toUInt64).toNat +
      (l.nanos.toUInt64 * k.toUInt64 / second).toNat < UInt64.size := by
    rw [hsecs, toNat_carried]
    exact h
  refine ⟨⟨l.secs * k.toUInt64 + l.nanos.toUInt64 * k.toUInt64 / second,
    (l.nanos.toUInt64 * k.toUInt64 % second).toUInt32⟩, ?_, ?_, ?_⟩
  · unfold scale? product? sum?
    rw [if_pos hproduct]
    show (if _ then _ else none).bind _ = _
    rw [if_pos hsum]
    rfl
  · rw [toNat_remaining]
    exact Nat.mod_lt _ (by decide)
  · rw [count_mul, count, toNat_add hsum, hsecs, toNat_carried, toNat_remaining, scaledSecs]

theorem scale?_eq_none (h : UInt64.size ≤ scaledSecs l k) : l.scale? k = none := by
  unfold scale? product? sum?
  split
  · rename_i hproduct
    have hsecs : (l.secs * k.toUInt64).toNat = l.secs.toNat * k.toNat := by
      rw [toNat_mul hproduct, UInt32.toNat_toUInt64]
    show (if _ then _ else none).bind _ = _
    rw [if_neg]
    · rfl
    · rw [hsecs, toNat_carried]
      exact Nat.not_lt.mpr h
  · rfl

/-! ## Division -/

/-- Dividing seconds and nanoseconds apart, with what is left of the seconds carried. -/
theorem div_split {k : Nat} (hk : 0 < k) (secs nanos : Nat) :
    (secs * nanosPerSecond + nanos) / k =
      secs / k * nanosPerSecond +
        (nanos / k + (secs % k * nanosPerSecond + nanos % k) / k) := by
  have hsecs := Nat.div_add_mod secs k
  have hnanos := Nat.div_add_mod nanos k
  have hwhole : secs * nanosPerSecond + nanos =
      k * (secs / k * nanosPerSecond + nanos / k) +
        (secs % k * nanosPerSecond + nanos % k) := by
    conv_lhs => rw [← hsecs, ← hnanos]
    ring
  rw [hwhole, Nat.mul_add_div hk, Nat.add_assoc]

/-- What the nanoseconds of a quotient come to makes up no second. -/
theorem carried_lt {k : Nat} (hk : 0 < k) (secs : Nat) {nanos : Nat}
    (hnanos : nanos < nanosPerSecond) :
    nanos / k + (secs % k * nanosPerSecond + nanos % k) / k < nanosPerSecond := by
  have hrest := Nat.mod_lt secs hk
  have hsplit := div_split hk (secs % k) nanos
  rw [Nat.div_eq_of_lt hrest, Nat.mod_mod, Nat.zero_mul, Nat.zero_add] at hsplit
  rw [← hsplit]
  apply Nat.div_lt_of_lt_mul
  calc secs % k * nanosPerSecond + nanos
      < secs % k * nanosPerSecond + nanosPerSecond := Nat.add_lt_add_left hnanos _
    _ = (secs % k + 1) * nanosPerSecond := (Nat.succ_mul _ _).symm
    _ ≤ k * nanosPerSecond := Nat.mul_le_mul_right _ hrest

theorem toNat_divide_secs (l : Limbs) (k : UInt32) :
    (l.divide k).secs.toNat = l.secs.toNat / k.toNat := by
  show (l.secs / k.toUInt64).toNat = _
  rw [UInt64.toNat_div, UInt32.toNat_toUInt64]

theorem toNat_divide_nanos (hnanos : l.nanos.toNat < nanosPerSecond) (hk : 0 < k.toNat) :
    (l.divide k).nanos.toNat = l.nanos.toNat / k.toNat +
      (l.secs.toNat % k.toNat * nanosPerSecond + l.nanos.toNat % k.toNat) / k.toNat := by
  have hcarried := carried_lt hk l.secs.toNat hnanos
  have hsmall : nanosPerSecond < UInt32.size := by decide
  have hleft : (l.secs % k.toUInt64).toNat = l.secs.toNat % k.toNat := by
    rw [UInt64.toNat_mod, UInt32.toNat_toUInt64]
  have hrest : (l.nanos % k).toUInt64.toNat = l.nanos.toNat % k.toNat := by
    rw [UInt32.toNat_toUInt64, UInt32.toNat_mod]
  have hless : l.secs.toNat % k.toNat < UInt32.size :=
    Nat.lt_trans (Nat.mod_lt _ hk) k.toNat_lt
  have hlesser : l.nanos.toNat % k.toNat < UInt32.size :=
    Nat.lt_trans (Nat.mod_lt _ hk) k.toNat_lt
  -- neither the seconds left over, as nanoseconds, nor their sum with the others wrap
  have hproduct : (l.secs % k.toUInt64 * second).toNat =
      l.secs.toNat % k.toNat * nanosPerSecond := by
    rw [toNat_mul, hleft]
    · rfl
    · rw [hleft]
      exact Nat.mul_lt_mul'' hless hsmall
  have hsum : (l.secs % k.toUInt64 * second + (l.nanos % k).toUInt64).toNat =
      l.secs.toNat % k.toNat * nanosPerSecond + l.nanos.toNat % k.toNat := by
    rw [toNat_add, hproduct, hrest]
    rw [hproduct, hrest]
    simp only [nanosPerSecond, UInt32.size, UInt64.size] at *
    omega
  show (l.nanos / k + ((l.secs % k.toUInt64 * second + (l.nanos % k).toUInt64) /
    k.toUInt64).toUInt32).toNat = _
  rw [UInt32.toNat_add, UInt32.toNat_div, UInt64.toNat_toUInt32, UInt64.toNat_div, hsum,
    UInt32.toNat_toUInt64]
  rw [Nat.mod_eq_of_lt (Nat.lt_of_le_of_lt (Nat.le_add_left _ _) (Nat.lt_trans hcarried hsmall))]
  exact Nat.mod_eq_of_lt (Nat.lt_trans hcarried hsmall)

end Limbs

/-! ## The words of results -/

theorem mul_lt_iff (d : Duration) (k : UInt32) :
    d.nanos * k.toNat < durationBound ↔ d.limbs.scaledSecs k < UInt64.size := by
  have hcount := d.limbs.count_mul k
  have hrest : d.limbs.nanos.toNat * k.toNat % nanosPerSecond < nanosPerSecond :=
    Nat.mod_lt _ (by decide)
  have hbound : durationBound = UInt64.size * nanosPerSecond := rfl
  rw [count_limbs] at hcount
  rw [hcount, hbound]
  simp only [nanosPerSecond] at hrest ⊢
  omega

/-- The words of a multiple, and none if that is more than a duration can hold. -/
theorem limbs_scale? (d : Duration) (k : UInt32) :
    (d.scale? k.toNat).map limbs = d.limbs.scale? k := by
  unfold scale? ofNanos?
  by_cases h : d.nanos * k.toNat < durationBound
  · obtain ⟨scaled, hscaled, hnanos, hcount⟩ :=
      Limbs.exists_scale? ((d.mul_lt_iff k).mp h)
    rw [count_limbs] at hcount
    rw [dif_pos h, hscaled]
    exact congrArg some (eq_limbs hnanos hcount).symm
  · rw [dif_neg h, Limbs.scale?_eq_none (Nat.not_lt.mp (mt (d.mul_lt_iff k).mpr h))]
    rfl

/-- The words of a quotient. -/
theorem limbs_divide (d : Duration) {k : UInt32} (hk : 0 < k.toNat) :
    (d.divide k.toNat).limbs = d.limbs.divide k := by
  have hnanos : d.limbs.nanos.toNat < nanosPerSecond := d.nanos_limbs.symm ▸ d.subsecNanos_lt
  have hcarried := Limbs.carried_lt hk d.limbs.secs.toNat hnanos
  rw [← Limbs.toNat_divide_nanos hnanos hk] at hcarried
  refine (eq_limbs hcarried ?_).symm
  rw [nanos_divide, ← count_limbs, Limbs.count, Limbs.toNat_divide_secs,
    Limbs.toNat_divide_nanos hnanos hk]
  exact (Limbs.div_split hk _ _).symm

end Tenure.Duration
