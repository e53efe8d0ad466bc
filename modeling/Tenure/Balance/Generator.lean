import Tenure.Numeric.Binary64

/-!
# Generators of random draws, and pools of them

A `Generator` gives the two kinds of draw that orderings need. Seeding one is costly,
so generators wait in a `Pool` and are checked out for the length of one ordering: the
one put back last goes out first, and only when none waits is a new one seeded from
the `Entropy`.
-/

namespace Tenure

open Numeric

/-- A state that random draws are taken from. -/
class Generator (γ : Type) where
  /-- One of the places `0, …, last`. -/
  place : γ → (last : Nat) → Fin (last + 1) × γ
  /-- An exponentially distributed magnitude of mean one. -/
  exponential : γ → Binary64 × γ

/-- The generators still to be seeded, in their order. -/
structure Entropy (γ : Type) where
  seed : Nat → γ
  /-- How many have been seeded. -/
  seeded : Nat := 0

namespace Entropy

/-- Seeds a generator. -/
def next {γ : Type} (e : Entropy γ) : γ × Entropy γ :=
  (e.seed e.seeded, { e with seeded := e.seeded + 1 })

end Entropy

/-- Generators that wait to be used; the first one goes out next. -/
structure Pool (γ : Type) where
  idle : List γ := []

namespace Pool

/-- A pool in which none waits. -/
def empty {γ : Type} : Pool γ := {}

/-- Takes a waiting generator out, or seeds one. -/
def checkOut {γ : Type} (p : Pool γ) (e : Entropy γ) : γ × Pool γ × Entropy γ :=
  match p.idle with
  | g :: rest => (g, { p with idle := rest }, e)
  | [] =>
    let (g, e) := e.next
    (g, p, e)

/-- Puts a generator back. -/
def giveBack {γ : Type} (p : Pool γ) (g : γ) : Pool γ := { p with idle := g :: p.idle }

/-- Runs something that needs a generator, on one that is checked out for it and given
back afterwards, whatever came of it. -/
def lend {γ α : Type} (p : Pool γ) (e : Entropy γ) (use : γ → α × γ) : α × Pool γ × Entropy γ :=
  let (g, p, e) := p.checkOut e
  let (a, g) := use g
  (a, p.giveBack g, e)

end Pool

end Tenure
