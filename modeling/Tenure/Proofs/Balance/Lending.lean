import Mathlib.Data.List.Induction
import Mathlib.Order.Bounds.Defs
import Tenure.Balance.Desk
import Tenure.Proofs.Balance.Reordering

/-!
# A pool keeps its generators

A generator that was seeded is never lost: it waits in the pool, or someone holds it, or an ordering
is under way with it. A new one is seeded only when none waits, which is when more are needed at
once than ever before. So the pool has as many as were ever out at the same time.

* `BusyDesk.step` is one access to a pool while orderings are under way, one inside another or side
  by side; `BusyDesk.counts_step` says what it does to the number of generators (the step), and
  `BusyDesk.isGreatest_total` compares that with the largest number that was out (the run);
* `Desk.run_eq` — the operations of a desk are such accesses, an ordering being one that takes a
  generator and one that gives it back.
-/

namespace Tenure

open Numeric

/-! ## Accesses -/

/-- A generator that waits goes out, or none waits and one is seeded. -/
theorem Pool.checkOut_cases {γ : Type} (p : Pool γ) (e : Entropy γ) :
    (p.checkOut e).2.2 = e ∧ (p.checkOut e).2.1.idle.length + 1 = p.idle.length ∨
      p.idle = [] ∧ (p.checkOut e).2.1.idle = [] ∧ (p.checkOut e).2.2 = e.next.2 := by
  unfold checkOut
  split
  · rename_i g rest hidle
    exact .inl ⟨rfl, congrArg List.length hidle.symm⟩
  · rename_i hidle
    exact .inr ⟨hidle, hidle, rfl⟩

/-- One access to a pool. An ordering takes a generator when it starts and gives it back, spent,
when it ends, whatever came of it; what a weight function asks of the pool meanwhile are accesses
of their own. -/
inductive Access (γ : Type)
  | hold
  | giveBack (index : Nat)
  | start
  | finish (index : Nat) (spend : γ → γ)

/-- A desk with orderings under way. -/
structure BusyDesk (γ : Type) extends Desk γ where
  /-- The generators that orderings work with, the latest one first. -/
  lent : List γ := []

namespace BusyDesk

variable {γ : Type}

/-! ## Counts -/

/-- How many generators are out. -/
def out (b : BusyDesk γ) : Nat := b.held.length + b.lent.length

/-- How many generators there are. -/
def total (b : BusyDesk γ) : Nat := b.pool.idle.length + b.out

/-- What an access may do to the number of generators. -/
inductive Counts (b b' : BusyDesk γ) : Prop
  | kept (hentropy : b'.entropy = b.entropy) (htotal : b'.total = b.total)
  /-- None waits, before or after, and one is seeded. -/
  | grown (hidle : b.pool.idle = []) (hleft : b'.pool.idle = [])
      (hentropy : b'.entropy = b.entropy.next.2) (htotal : b'.total = b.total + 1)

theorem counts_checkOut {b b' : BusyDesk γ} (hpool : b'.pool = (b.pool.checkOut b.entropy).2.1)
    (hentropy : b'.entropy = (b.pool.checkOut b.entropy).2.2) (hout : b'.out = b.out + 1) :
    Counts b b' := by
  have htotal : b'.total = b'.pool.idle.length + b.out + 1 := by
    rw [total, hout, Nat.add_assoc]
  rcases b.pool.checkOut_cases b.entropy with ⟨hsame, hlength⟩ | ⟨hidle, hleft, hnext⟩
  · refine .kept (hentropy.trans hsame) ?_
    rw [htotal, hpool, total, ← hlength, Nat.add_right_comm]
  · have hnone : b'.pool.idle = [] := hpool ▸ hleft
    exact .grown hidle hnone (hentropy.trans hnext) (by rw [htotal, total, hnone, hidle])

theorem counts_giveBack {b b' : BusyDesk γ} {g : γ} (hpool : b'.pool = b.pool.giveBack g)
    (hentropy : b'.entropy = b.entropy) (hout : b'.out + 1 = b.out) : Counts b b' := by
  refine .kept hentropy ?_
  rw [total, total, hpool, Pool.giveBack, List.length_cons]
  omega

/-! ## One access -/

variable [Generator γ]

/-- One access. -/
def step (b : BusyDesk γ) : Access γ → BusyDesk γ
  | .hold => { b with toDesk := (b.toDesk.perform .hold).1 }
  | .giveBack index => { b with toDesk := (b.toDesk.perform (.giveBack index)).1 }
  | .start =>
    let (g, pool, entropy) := b.pool.checkOut b.entropy
    { b with pool, entropy, lent := g :: b.lent }
  | .finish index spend =>
    match b.lent[index]? with
    | some g => { b with pool := b.pool.giveBack (spend g), lent := b.lent.eraseIdx index }
    | none => b

theorem counts_step (b : BusyDesk γ) (a : Access γ) : Counts b (b.step a) := by
  cases a with
  | hold =>
      refine counts_checkOut rfl rfl ?_
      show (b.held ++ [_]).length + b.lent.length = b.held.length + b.lent.length + 1
      rw [List.length_append, List.length_singleton, Nat.add_right_comm]
  | start => exact counts_checkOut rfl rfl rfl
  | giveBack index =>
      unfold step Desk.perform
      dsimp only
      split
      · rename_i g hheld
        have hlength := List.length_eraseIdx_add_one (List.getElem?_eq_some_iff.mp hheld).1
        refine counts_giveBack (g := g) rfl rfl ?_
        show (b.held.eraseIdx index).length + b.lent.length + 1 = b.held.length + b.lent.length
        omega
      · exact .kept rfl rfl
  | finish index spend =>
      unfold step
      dsimp only
      split
      · rename_i g hlent
        have hlength := List.length_eraseIdx_add_one (List.getElem?_eq_some_iff.mp hlent).1
        refine counts_giveBack (g := spend g) rfl rfl ?_
        show b.held.length + (b.lent.eraseIdx index).length + 1 = b.held.length + b.lent.length
        omega
      · exact .kept rfl rfl

/-! ## All accesses -/

/-- Accesses one after the other. -/
def run (b : BusyDesk γ) (accesses : List (Access γ)) : BusyDesk γ := accesses.foldl step b

/-- The numbers of generators that are out before, between and after some accesses. -/
def outs (b : BusyDesk γ) (accesses : List (Access γ)) : Set Nat :=
  { n | ∃ earlier, earlier <+: accesses ∧ n = (b.run earlier).out }

theorem run_append (b : BusyDesk γ) (earlier later : List (Access γ)) :
    b.run (earlier ++ later) = (b.run earlier).run later :=
  List.foldl_append

theorem run_concat (b : BusyDesk γ) (accesses : List (Access γ)) (a : Access γ) :
    b.run (accesses ++ [a]) = (b.run accesses).step a :=
  List.foldl_concat _ _ _ _

/-- If no generator waits at the beginning, there are as many as were ever out. -/
theorem isGreatest_total {b : BusyDesk γ} (hidle : b.pool.idle = []) (accesses : List (Access γ)) :
    IsGreatest (b.outs accesses) (b.run accesses).total := by
  have hout {b : BusyDesk γ} (hidle : b.pool.idle = []) : b.total = b.out := by
    rw [total, hidle, List.length_nil, Nat.zero_add]
  -- from the last access: only one that finds no generator waiting can set a new mark, and then
  -- all of them are out
  induction accesses using List.reverseRecOn with
  | nil =>
      refine ⟨⟨[], List.prefix_refl _, hout hidle⟩, ?_⟩
      rintro n ⟨earlier, hearlier, rfl⟩
      rw [List.prefix_nil.mp hearlier]
      exact Nat.le_add_left _ _
  | append_singleton accesses a ih =>
      obtain ⟨⟨earlier, hearlier, hmost⟩, hbound⟩ := ih
      have hcounts := counts_step (b.run accesses) a
      rw [← run_concat] at hcounts
      constructor
      · cases hcounts with
        | kept _ hsame =>
            exact ⟨earlier, List.prefix_concat_iff.mpr (.inr hearlier), hsame.trans hmost⟩
        | grown _ hleft => exact ⟨accesses ++ [a], List.prefix_refl _, hout hleft⟩
      · rintro n ⟨earlier, hearlier, rfl⟩
        rcases List.prefix_concat_iff.mp hearlier with rfl | hearlier
        · exact Nat.le_add_left _ _
        · have hbefore := hbound ⟨earlier, hearlier, rfl⟩
          cases hcounts with
          | kept _ hsame => exact Nat.le_trans hbefore (Nat.le_of_eq hsame.symm)
          | grown _ _ _ hmore => exact Nat.le_trans hbefore (by omega)

/-- As many generators are seeded as there are more of. -/
theorem seeded_run (b : BusyDesk γ) (accesses : List (Access γ)) :
    (b.run accesses).entropy.seeded + b.total = b.entropy.seeded + (b.run accesses).total := by
  induction accesses using List.reverseRecOn with
  | nil => rfl
  | append_singleton accesses a ih =>
      have hcounts := counts_step (b.run accesses) a
      rw [← run_concat] at hcounts
      cases hcounts with
      | kept hsame htotal => rw [hsame, htotal, ih]
      | grown _ _ hnext htotal =>
          have hseeded : (b.run (accesses ++ [a])).entropy.seeded =
              (b.run accesses).entropy.seeded + 1 := congrArg Entropy.seeded hnext
          omega

end BusyDesk

/-! ## Operations -/

variable {γ : Type} [Generator γ]

/-- The accesses of an operation. -/
def Errand.accesses : Errand → List (Access γ)
  | hold => [.hold]
  | giveBack index => [.giveBack index]
  | shuffle endpoints => [.start, .finish 0 fun g => (Tenure.shuffle g endpoints).2]
  | weightedShuffle weight endpoints =>
    [.start, .finish 0 fun g => (Tenure.weightedShuffle weight g endpoints).2]

namespace Desk

theorem perform_eq (d : Desk γ) (lent : List γ) (e : Errand) :
    BusyDesk.run ⟨d, lent⟩ e.accesses = ⟨(d.perform e).1, lent⟩ := by
  cases e <;> rfl

theorem run_eq (d : Desk γ) (lent : List γ) (errands : List Errand) :
    BusyDesk.run ⟨d, lent⟩ (errands.flatMap Errand.accesses) = ⟨d.run errands, lent⟩ := by
  induction errands generalizing d with
  | nil => rfl
  | cons e errands ih =>
      rw [List.flatMap_cons, BusyDesk.run_append, perform_eq, ih]
      rfl

/-- A weighted shuffle fails exactly if some endpoint has no weight, and leaves the endpoints as
they were if it does. -/
theorem perform_weightedShuffle (d : Desk γ) (weight : Endpoint → Option Binary64)
    (endpoints : List Endpoint) :
    ((d.perform (.weightedShuffle weight endpoints)).2.failed = true ↔
      ∃ e ∈ endpoints, weight e = none) ∧
    ((d.perform (.weightedShuffle weight endpoints)).2.failed = true →
      (d.perform (.weightedShuffle weight endpoints)).2.endpoints = endpoints) := by
  obtain ⟨outcome, hnone, hresult⟩ : ∃ outcome : Option (List Endpoint),
      (outcome = none ↔ ∃ e ∈ endpoints, weight e = none) ∧
      (d.perform (.weightedShuffle weight endpoints)).2 =
        { endpoints := outcome.getD endpoints, failed := outcome.isNone } :=
    ⟨(weightedShuffle weight (d.pool.checkOut d.entropy).1 endpoints).1,
      weightedShuffle_eq_none_iff, rfl⟩
  rw [hresult, ← hnone]
  cases outcome <;> simp

/-- A pool that starts with no generator has, after any accesses, as many as were ever out at the
same time, a running ordering counting for one; they are all that were seeded, and one is seeded
only when none waits. The operations of a desk, in any order and with failing weights among them,
are such accesses, after which no ordering is under way. An ordering leaves what is held as it is,
and a weighted shuffle that fails, which it does if some endpoint has no weight, leaves the
endpoints as they were. -/
theorem generators_conserved (entropy : Entropy γ) :
    (∀ accesses : List (Access γ),
      let start : BusyDesk γ := ⟨{ entropy }, []⟩
      let b := start.run accesses
      IsGreatest (start.outs accesses)
          (b.pool.idle.length + (b.held.length + b.lent.length)) ∧
        b.entropy.seeded =
          entropy.seeded + (b.pool.idle.length + (b.held.length + b.lent.length))) ∧
    (∀ errands : List Errand,
      let start : BusyDesk γ := ⟨{ entropy }, []⟩
      let d := Desk.run { entropy } errands
      start.run (errands.flatMap Errand.accesses) = ⟨d, []⟩ ∧
        IsGreatest (start.outs (errands.flatMap Errand.accesses))
          (d.pool.idle.length + d.held.length)) ∧
    (∀ (b : BusyDesk γ) (a : Access γ), (b.step a).entropy = b.entropy ∨
      b.pool.idle = [] ∧ (b.step a).entropy = b.entropy.next.2) ∧
    (∀ (b : BusyDesk γ) (index : Nat) (spend : γ → γ), (b.step .start).held = b.held ∧
      (b.step (.finish index spend)).held = b.held) ∧
    ∀ (d : Desk γ) (weight : Endpoint → Option Binary64) (endpoints : List Endpoint),
      (d.perform (.shuffle endpoints)).1.held = d.held ∧
      (d.perform (.weightedShuffle weight endpoints)).1.held = d.held ∧
      ((d.perform (.weightedShuffle weight endpoints)).2.failed = true ↔
        ∃ e ∈ endpoints, weight e = none) ∧
      ((d.perform (.weightedShuffle weight endpoints)).2.failed = true →
        (d.perform (.weightedShuffle weight endpoints)).2.endpoints = endpoints) := by
  refine ⟨fun accesses => ⟨?_, ?_⟩, fun errands => ⟨run_eq _ _ errands, ?_⟩, fun b a => ?_,
    fun b index spend => ⟨rfl, ?_⟩,
    fun d weight endpoints => ⟨rfl, rfl, d.perform_weightedShuffle weight endpoints⟩⟩
  · exact BusyDesk.isGreatest_total rfl accesses
  · exact BusyDesk.seeded_run ⟨{ entropy }, []⟩ accesses
  · have hgreatest := BusyDesk.isGreatest_total (b := ⟨{ entropy }, []⟩) rfl
      (errands.flatMap Errand.accesses)
    rw [run_eq] at hgreatest
    exact hgreatest
  · cases BusyDesk.counts_step b a with
    | kept hsame => exact .inl hsame
    | grown hidle _ hnext => exact .inr ⟨hidle, hnext⟩
  · unfold BusyDesk.step
    dsimp only
    split <;> rfl

/-- Two generators held, but one of them only after an ordering without weights has failed. -/
def interrupted : List Errand :=
  [.hold, .weightedShuffle (fun _ => none) [{ id := "a", addr := "a:1" }], .hold, .giveBack 0]

theorem generators_conserved_of_interrupted :
    let entropy : Entropy Draws := { seed := fun _ => {} }
    let d := Desk.run { entropy } interrupted
    let result := (d.perform (.weightedShuffle (fun _ => none) [{ id := "a", addr := "a:1" }])).2
    IsGreatest (BusyDesk.outs ⟨{ entropy }, []⟩ (interrupted.flatMap Errand.accesses)) 2 ∧
      d.pool.idle.length = 1 ∧ d.held.length = 1 ∧
      result.failed = true ∧ result.endpoints = [{ id := "a", addr := "a:1" }] := by
  intro entropy d result
  obtain ⟨-, hdesk, -, -, hfails⟩ := generators_conserved entropy
  obtain ⟨-, -, hfailed, hunchanged⟩ := hfails d (fun _ => none) [{ id := "a", addr := "a:1" }]
  have hnone := hfailed.mpr ⟨_, List.mem_singleton_self _, rfl⟩
  exact ⟨(hdesk interrupted).2, rfl, rfl, hnone, hunchanged hnone⟩

end Desk

end Tenure
