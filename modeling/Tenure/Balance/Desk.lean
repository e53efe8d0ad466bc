import Tenure.Balance.Endpoint
import Tenure.Balance.Shuffle

/-!
# A pool and the generators taken from it

A `Desk` is a pool together with the generators that are checked out of it and not yet
given back. `Desk.perform` runs one operation on it.
-/

namespace Tenure

open Numeric

/-- A pool and what is out of it, the longest held first. -/
structure Desk (γ : Type) where
  pool : Pool γ := .empty
  entropy : Entropy γ
  held : List γ := []

/-- What is asked of a pool. -/
inductive Errand
  /-- Check a generator out and hold it. -/
  | hold
  /-- Give back the generator that is held at an index. -/
  | giveBack (index : Nat)
  | shuffle (endpoints : List Endpoint)
  | weightedShuffle (weight : Endpoint → Option Binary64) (endpoints : List Endpoint)

/-- What came of it. -/
structure ErrandResult where
  /-- The list that was to be ordered, as it is afterwards. -/
  endpoints : List Endpoint := []
  /-- Whether a weight function failed. -/
  failed : Bool := false

namespace Desk

variable {γ : Type} [Generator γ]

/-- Runs one operation. -/
def perform (d : Desk γ) : Errand → Desk γ × ErrandResult
  | .hold =>
    let (g, pool, entropy) := d.pool.checkOut d.entropy
    ({ pool, entropy, held := d.held ++ [g] }, {})
  | .giveBack index =>
    match d.held[index]? with
    | some g => ({ d with pool := d.pool.giveBack g, held := d.held.eraseIdx index }, {})
    | none => (d, {})
  | .shuffle endpoints =>
    let (endpoints, pool, entropy) := d.pool.lend d.entropy (Tenure.shuffle · endpoints)
    ({ d with pool, entropy }, { endpoints })
  | .weightedShuffle weight endpoints =>
    let (outcome, pool, entropy) :=
      d.pool.lend d.entropy (Tenure.weightedShuffle weight · endpoints)
    ({ d with pool, entropy },
      { endpoints := outcome.getD endpoints, failed := outcome.isNone })

/-- Runs operations one after the other. -/
def run (d : Desk γ) (errands : List Errand) : Desk γ :=
  errands.foldl (fun d e => (d.perform e).1) d

end Desk

end Tenure
