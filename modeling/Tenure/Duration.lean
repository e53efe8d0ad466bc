/-!
# Durations

A duration is a number of nanoseconds that fits 64 bits of whole seconds. Its two
limbs are `secs` and `subsecNanos`; arithmetic on it is arithmetic on the count,
with one bound to check.
-/

namespace Tenure

/-- The number of nanoseconds in a microsecond. -/
def nanosPerMicro : Nat := 1000

/-- The number of nanoseconds in a millisecond. -/
def nanosPerMilli : Nat := 1000000

/-- The number of nanoseconds in a second. -/
def nanosPerSecond : Nat := 1000000000

/-- The number of nanoseconds in `2^64` seconds. -/
def durationBound : Nat := Nat.pow 2 64 * nanosPerSecond

/-- A span of time in whole nanoseconds, of fewer than `2^64` seconds. -/
structure Duration where
  nanos : Nat
  nanos_lt : nanos < durationBound
deriving DecidableEq

namespace Duration

/-- No time at all. -/
def zero : Duration := ⟨0, by decide⟩

instance : Inhabited Duration := ⟨zero⟩

/-- The longest duration. -/
def longest : Duration := ⟨durationBound - 1, by decide⟩

/-- The duration of a number of nanoseconds, if it fits. -/
def ofNanos? (n : Nat) : Option Duration :=
  if h : n < durationBound then some ⟨n, h⟩ else none

/-- The duration of a number of nanoseconds, the longest one if it does not fit. -/
def ofNanos (n : Nat) : Duration := (ofNanos? n).getD longest

/-- The duration of a number of milliseconds. -/
def ofMillis (n : Nat) : Duration := ofNanos (n * nanosPerMilli)

/-- The duration of a number of seconds. -/
def ofSecs (n : Nat) : Duration := ofNanos (n * nanosPerSecond)

/-- Whole seconds. -/
def secs (d : Duration) : Nat := d.nanos / nanosPerSecond

/-- Nanoseconds beyond the whole seconds. -/
def subsecNanos (d : Duration) : Nat := d.nanos % nanosPerSecond

/-- The duration of whole seconds and further nanoseconds, which may carry. -/
def ofParts? (secs nanos : Nat) : Option Duration := ofNanos? (secs * nanosPerSecond + nanos)

/-- Whether this is no time at all. -/
def isZero (d : Duration) : Bool := d.nanos == 0

/-- The duration taken `k` times, if it fits. -/
def scale? (d : Duration) (k : Nat) : Option Duration := ofNanos? (d.nanos * k)

/-- The duration divided by `k`, rounded down. -/
def divide (d : Duration) (k : Nat) : Duration :=
  ⟨d.nanos / k, Nat.lt_of_le_of_lt (Nat.div_le_self ..) d.nanos_lt⟩

@[ext] theorem ext {a b : Duration} (h : a.nanos = b.nanos) : a = b := by
  cases a; cases b; simp_all

@[simp] theorem nanos_divide (d : Duration) (k : Nat) : (d.divide k).nanos = d.nanos / k := rfl

theorem isZero_iff {d : Duration} : d.isZero = true ↔ d.nanos = 0 := beq_iff_eq

theorem nanos_eq_zero_iff {d : Duration} : d.nanos = 0 ↔ d = .zero :=
  ⟨fun h => ext h, fun h => congrArg nanos h⟩

theorem ofNanos?_eq_some_iff {n : Nat} {d : Duration} : ofNanos? n = some d ↔ d.nanos = n := by
  unfold ofNanos?
  split
  · rename_i h
    constructor
    · intro e; cases e; rfl
    · intro e; exact congrArg some (ext e.symm)
  · rename_i h
    constructor
    · intro e; cases e
    · intro e; exact absurd (e ▸ d.nanos_lt) h

theorem ofNanos?_eq_none_iff {n : Nat} : ofNanos? n = none ↔ durationBound ≤ n := by
  unfold ofNanos?
  split
  · rename_i h
    exact ⟨nofun, fun hle => absurd h (Nat.not_lt.mpr hle)⟩
  · rename_i h
    exact ⟨fun _ => Nat.not_lt.mp h, fun _ => rfl⟩

/-! ## Display with a unit -/

/-- The digits of `fraction`, `places` of them, without trailing zeros. -/
def fractionDigits (fraction places : Nat) : List Char :=
  let digits := Nat.toDigits 10 fraction
  let padded := List.replicate (places - digits.length) '0' ++ digits
  (padded.reverse.dropWhile (· == '0')).reverse

/-- `whole`, and `fraction` behind a point unless it is zero. -/
def pointed (whole fraction places : Nat) : List Char :=
  let tail := fractionDigits fraction places
  Nat.toDigits 10 whole ++ (if fraction = 0 then [] else '.' :: tail)

/-- The duration in the largest unit that it fills, with as many decimal places as
needed: `150ms`, `1.5s`, `2ns`, `10.1µs`. -/
def display (d : Duration) : String :=
  let n := d.nanos
  let text :=
    if nanosPerSecond ≤ n then pointed (n / nanosPerSecond) (n % nanosPerSecond) 9 ++ ['s']
    else if nanosPerMilli ≤ n then pointed (n / nanosPerMilli) (n % nanosPerMilli) 6 ++ ['m', 's']
    else if nanosPerMicro ≤ n then pointed (n / nanosPerMicro) (n % nanosPerMicro) 3 ++ ['µ', 's']
    else pointed n 0 0 ++ ['n', 's']
  String.ofList text

end Duration

end Tenure
