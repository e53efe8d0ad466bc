import Tenure.Balance.Generator

/-!
# Random orderings

* `shuffle` exchanges every place with one drawn among it and those before it.
* `weightedShuffle` gives every element the key *weight × exponential draw* and lays
  the elements out by ascending key, elements of one key staying in their order. Light
  elements tend to come first, and every element has a chance to.

A weight function may fail on an element: then the draws made so far are spent and
there is no ordering. `arrange?` lays a list out in a given order of its places by
following the cycles of that order.
-/

namespace Tenure

open Numeric

variable {α γ : Type}

/-! ## Uniform shuffles -/

/-- Exchanges each place from `i` on with one drawn among it and those before it. -/
def shuffleFrom [Generator γ] {n : Nat} (i : Nat) (g : γ) (xs : Vector α n) : Vector α n × γ :=
  if h : i < n then
    let drawn := Generator.place g i
    shuffleFrom (i + 1) drawn.2 (xs.swap i drawn.1 h (Nat.lt_of_le_of_lt drawn.1.is_le h))
  else (xs, g)
termination_by n - i

/-- A list in a random order. -/
def shuffle [Generator γ] (g : γ) (xs : List α) : List α × γ :=
  let (ys, g) := shuffleFrom 1 g xs.toArray.toVector
  (ys.toList, g)

/-! ## Laying a list out -/

/-- The number of places that do not stand for themselves. -/
def displaced (order : List Nat) : Nat := order.zipIdx.countP fun p => p.1 != p.2

theorem displaced_set_lt {order : List Nat} {i : Nat} {h : i < order.length}
    (moved : order[i] ≠ i) : displaced (order.set i i) < displaced order := by
  have shift (l : List Nat) (i k : Nat) (h : i < l.length) (moved : l[i] ≠ k + i) :
      ((l.set i (k + i)).zipIdx k).countP (fun p => p.1 != p.2) <
        (l.zipIdx k).countP (fun p => p.1 != p.2) := by
    induction l generalizing i k with
    | nil => simp at h
    | cons a l ih =>
      cases i with
      | zero =>
        simp only [List.set_cons_zero, List.zipIdx_cons, List.countP_cons]
        simp only [List.getElem_cons_zero] at moved
        simp [show a ≠ k from by omega]
      | succ i =>
        simp only [List.set_cons_succ, List.zipIdx_cons, List.countP_cons]
        have := ih i (k + 1) (by simpa using h)
          (by simp only [List.getElem_cons_succ] at moved; omega)
        rw [show k + 1 + i = k + (i + 1) by omega] at this
        omega
  simpa [displaced] using shift order i 0 h (by simpa using moved)

/-- Follows the cycle through `current`, bringing to each place of it the element of
the place that it is to have, until the cycle is back at `start`. Every place passed
stands for itself afterwards. It fails at a place that is not there. -/
def followCycle? (start current : Nat) (order : List Nat) (xs : Array α) :
    Option (List Nat × Array α) :=
  if h : current < order.length then
    let next := order[current]
    let settled := order.set current current
    if next = start ∨ next = current then some (settled, xs)
    else if inside : current < xs.size ∧ next < xs.size then
      followCycle? start next settled (xs.swap current next inside.1 inside.2)
    else none
  else none
termination_by displaced order
decreasing_by exact displaced_set_lt (h := h) (by grind)

/-- Follows the cycles through the places from `start` on, `count` of them. -/
def followCycles? (start count : Nat) (order : List Nat) (xs : Array α) : Option (Array α) :=
  match count with
  | 0 => some xs
  | count + 1 => do
    let (order, xs) ← followCycle? start start order xs
    followCycles? (start + 1) count order xs

/-- The list whose element at each place `i` is the one that stood at `order[i]`. -/
def arrange? (order : List Nat) (xs : List α) : Option (List α) :=
  (followCycles? 0 xs.length order xs.toArray).map Array.toList

/-! ## Weighted shuffles -/

/-- The keys of the elements, a weight and a draw for each in their order. -/
def drawKeys [Generator γ] (weight : α → Option Binary64) : γ → List α →
    Option (List Binary64) × γ
  | g, [] => (some [], g)
  | g, x :: xs =>
    match weight x with
    | none => (none, g)
    | some w =>
      let (draw, g) := Generator.exponential g
      let (keys, g) := drawKeys weight g xs
      (keys.map (w * draw :: ·), g)

/-- The places of a list of keys by ascending key, equal keys in their order. -/
def ascending (keys : List Binary64) : List Nat :=
  (keys.zipIdx.mergeSort fun a b => a.1.totalLE b.1).map (·.2)

/-- A list in a random order in which light elements tend to come first; none if some
element has no weight. -/
def weightedShuffle [Generator γ] (weight : α → Option Binary64) (g : γ) (xs : List α) :
    Option (List α) × γ :=
  let (keys, g) := drawKeys weight g xs
  (keys.bind fun keys => arrange? (ascending keys) xs, g)

end Tenure
