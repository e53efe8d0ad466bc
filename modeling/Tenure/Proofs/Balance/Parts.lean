import Tenure.Proofs.Balance.Reordering

/-!
# The parts of a strategy

Sequences may be nested, and be built up step by step. What they do depends only on the
strategies that they come down to, and on what each of these remembers.

* `Strategy.held_balance` — a strategy does what its parts do, one after the other;
* `Strategy.parts_sequence` — the parts of a sequence are those of its members.
-/

namespace Tenure

variable {γ : Type}

/-- A strategy with what it remembers. -/
abbrev Held (γ : Type) := (s : Strategy) × s.State γ

namespace Strategy

/-- The strategies that a strategy comes down to, in the order in which they are applied. -/
def parts : Strategy → List Strategy
  | identity => []
  | andThen first second => first.parts ++ second.parts
  | s => [s]

/-- The parts with what each of them remembers. -/
def held : (s : Strategy) → s.State γ → List (Held γ)
  | identity, _ => []
  | andThen first second, state => first.held state.1 ++ second.held state.2
  | s, state => [⟨s, state⟩]

theorem map_fst_held (s : Strategy) (state : s.State γ) :
    (s.held state).map Sigma.fst = s.parts := by
  induction s with
  | andThen first second ihFirst ihSecond =>
      unfold held parts
      rw [List.map_append, ihFirst, ihSecond]
  | _ => rfl

/-- What the parts remember is all that the strategy remembers. -/
theorem held_injective (s : Strategy) : Function.Injective (s.held (γ := γ)) := by
  induction s with
  | identity => exact fun _ _ _ => rfl
  | andThen first second ihFirst ihSecond =>
      intro state state' h
      have hlength : (first.held state.1).length = (first.held state'.1).length := by
        rw [← List.length_map Sigma.fst, ← List.length_map Sigma.fst, map_fst_held, map_fst_held]
      obtain ⟨hfirst, hsecond⟩ := List.append_inj h hlength
      exact Prod.ext (ihFirst hfirst) (ihSecond hsecond)
  | _ =>
      intro state state' h
      exact eq_of_heq (Sigma.mk.inj (List.cons.inj h).1).2

theorem held_fresh (s : Strategy) :
    s.held (s.fresh γ) = s.parts.map fun p => ⟨p, p.fresh γ⟩ := by
  induction s with
  | andThen first second ihFirst ihSecond =>
      unfold parts
      rw [List.map_append, ← ihFirst, ← ihSecond]
      rfl
  | _ => rfl

theorem parts_sequence (members : List Strategy) :
    (sequence members).parts = members.flatMap parts := by
  induction members with
  | nil => rfl
  | cons s rest ih =>
      rw [List.flatMap_cons, ← ih]
      rfl

/-- A sequence that is built up by adding one strategy after the other. -/
theorem parts_foldl (s : Strategy) (members : List Strategy) :
    (members.foldl andThen s).parts = s.parts ++ members.flatMap parts := by
  induction members generalizing s with
  | nil => simp
  | cons t rest ih =>
      rw [List.foldl_cons, ih, List.flatMap_cons, ← List.append_assoc]
      rfl

variable [Generator γ]

/-- Applies strategies one after the other, until one fails. -/
def apply : List (Held γ) → Commons γ → String → List Endpoint → Balanced γ (List (Held γ))
  | [], commons, _, endpoints => { state := [], commons, endpoints }
  | p :: rest, commons, service, endpoints =>
    let r := p.1.balance p.2 commons service endpoints
    if r.failed then { r with state := ⟨p.1, r.state⟩ :: rest }
    else
      let q := apply rest r.commons service r.endpoints
      { q with state := ⟨p.1, r.state⟩ :: q.state }

theorem apply_append (ps qs : List (Held γ)) (commons : Commons γ) (service : String)
    (endpoints : List Endpoint) :
    apply (ps ++ qs) commons service endpoints =
      let r := apply ps commons service endpoints
      if r.failed then { r with state := r.state ++ qs }
      else
        let q := apply qs r.commons service r.endpoints
        { q with state := r.state ++ q.state } := by
  induction ps generalizing commons endpoints with
  | nil => rfl
  | cons p rest ih =>
      simp only [List.cons_append, apply, ih]
      split
      · rename_i hfailed
        simp [hfailed]
      · split <;> simp [*]

theorem apply_cons {p : Held γ} {commons : Commons γ} {service : String}
    {endpoints : List Endpoint} {r : Balanced γ (p.1.State γ)}
    (hr : p.1.balance p.2 commons service endpoints = r) (hsucceeds : r.failed = false)
    (rest : List (Held γ)) :
    apply (p :: rest) commons service endpoints =
      let q := apply rest r.commons service r.endpoints
      { q with state := ⟨p.1, r.state⟩ :: q.state } := by
  subst hr
  exact if_neg (Bool.eq_false_iff.mp hsucceeds)

theorem apply_singleton (s : Strategy) (state : s.State γ) (commons : Commons γ)
    (service : String) (endpoints : List Endpoint) :
    apply [⟨s, state⟩] commons service endpoints =
      let r := s.balance state commons service endpoints
      { r with state := [⟨s, r.state⟩] } := by
  simp only [apply]
  split
  · rfl
  · rename_i hfailed
    rw [Bool.eq_false_iff.mpr hfailed]

/-- A strategy does what its parts do, one after the other. -/
theorem held_balance (s : Strategy) (state : s.State γ) (commons : Commons γ)
    (service : String) (endpoints : List Endpoint) :
    apply (s.held state) commons service endpoints =
      let r := s.balance state commons service endpoints
      { r with state := s.held r.state } := by
  induction s generalizing commons endpoints with
  | identity => rfl
  | andThen first second ihFirst ihSecond =>
      simp only [held, balance]
      rw [apply_append, ihFirst]
      dsimp only
      split
      · simp [*]
      · rw [ihSecond]
  | _ => exact apply_singleton ..

end Strategy

end Tenure
