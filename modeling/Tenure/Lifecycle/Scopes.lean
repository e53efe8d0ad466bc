/-!
# Scopes

Scopes form a forest: each is a root or the child of an earlier one. Cancelling a scope
cancels everything below it, at once and for good. A scope is cancelled when it, or one
of the scopes above it, has been cut.
-/

namespace Tenure.Lifecycle

/-- A forest of scopes and those that have been cut. -/
structure Scopes where
  /-- For each scope the earlier one it is a child of. -/
  links : List (Option Nat) := []
  cut : List Nat := []
deriving DecidableEq

namespace Scopes

/-- The scope above, if there is one; only an earlier scope can be. -/
def above? (s : Scopes) (i : Nat) : Option Nat :=
  ((s.links[i]?).join).filter (· < i)

theorem above?_lt {s : Scopes} {i j : Nat} (h : s.above? i = some j) : j < i := by
  simp only [above?, Option.filter_eq_some_iff, decide_eq_true_eq] at h
  exact h.2

/-- Whether a scope is cancelled. -/
def isCancelled (s : Scopes) (i : Nat) : Bool :=
  s.cut.contains i ||
    match _h : s.above? i with
    | some j => isCancelled s j
    | none => false
termination_by i
decreasing_by exact above?_lt _h

theorem isCancelled_of_cut {s : Scopes} {i : Nat} (h : s.cut.contains i = true) :
    s.isCancelled i = true := by
  rw [isCancelled, h, Bool.true_or]

theorem isCancelled_of_above {s : Scopes} {i j : Nat} (habove : s.above? i = some j)
    (h : s.isCancelled j = true) : s.isCancelled i = true := by
  rw [isCancelled, Bool.or_eq_true]
  refine .inr ?_
  split
  · rename_i k hk
    obtain rfl := Option.some.inj (habove.symm.trans hk)
    exact h
  · rename_i hnone
    exact absurd (habove.symm.trans hnone) (by simp)

/-- Cancels a scope. -/
def cancel (s : Scopes) (i : Nat) : Scopes := { s with cut := i :: s.cut }

end Scopes

end Tenure.Lifecycle
