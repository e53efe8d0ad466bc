import Tenure.Duration

/-!
# The clock

Time passes in whole milliseconds, while deadlines are known to the nanosecond. A
deadline is *due* at the first millisecond that does not lie before it.

* `isDue_wakeAt` : a deadline is due at the millisecond that its timer wakes at;
* `wakeAt_le_of_isDue` : and at none before.
-/

namespace Tenure.Lifecycle

/-- A reading of the clock, in nanoseconds. -/
def toNanos (now : Nat) : Nat := nanosPerMilli * now

/-- Whether a deadline in nanoseconds has been reached at a reading of the clock. -/
def isDue (deadline now : Nat) : Bool := decide (deadline ≤ toNanos now)

/-- The reading of the clock at which a deadline is first due. -/
def wakeAt (deadline : Nat) : Nat := (deadline + (nanosPerMilli - 1)) / nanosPerMilli

theorem isDue_wakeAt (deadline : Nat) : isDue deadline (wakeAt deadline) = true := by
  refine decide_eq_true ?_
  simp only [toNanos, wakeAt, nanosPerMilli]
  omega

theorem wakeAt_le_of_isDue {deadline now : Nat} (h : isDue deadline now = true) :
    wakeAt deadline ≤ now := by
  have hd := of_decide_eq_true h
  simp only [toNanos, nanosPerMilli] at hd
  simp only [wakeAt, nanosPerMilli]
  omega

/-- Spans of this many seconds do not fit the clock. -/
def clockReachSecs : Nat := Nat.pow 2 63

/-- Thirty years, which is as long as a span that does not fit the clock is waited for. -/
def farFuture : Nat := 30 * 365 * 86400 * nanosPerSecond

/-- The deadline of a wait that starts now. -/
def deadlineAfter (now : Nat) (d : Duration) : Nat :=
  toNanos now + (if d.secs < clockReachSecs then d.nanos else farFuture)

end Tenure.Lifecycle
