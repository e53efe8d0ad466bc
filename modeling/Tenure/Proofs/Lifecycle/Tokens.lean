import Mathlib.Data.List.Induction
import Tenure.Proofs.Lifecycle.Callers

/-!
# Tokens follow the context

A token is cancelled by the context when it ends, and at no other time. Whoever
holds a token can cancel it as well, which concerns nobody else.

* `Context.Move.token_stays` — a token that is cancelled stays so;
* `World.token_cancelled_iff` — a token is cancelled if and only if the
  context has ended or its holder has cancelled it.
-/

namespace Tenure.Lifecycle

variable {α : Type}

namespace Context

/-- A token that is cancelled stays so. -/
theorem Move.token_stays {s : Surroundings} {actor : Actor} {c c' : Context}
    {events : List Event} (h : Move s actor c events c') {k : Nat}
    (hk : c.tokens[k]? = some true) : c'.tokens[k]? = some true := by
  have hended : (c.tokens.map fun _ => true)[k]? = some true := by
    rw [List.getElem?_map, hk]
    rfl
  cases h with
  | orphaned _ _ _ => exact hended
  | givenUp _ _ _ => exact hended
  | expired _ _ _ _ => exact hended
  | cancel _ _ => exact hended
  | handOutToken c =>
      show (c.tokens ++ [c.done])[k]? = some true
      rw [List.getElem?_append_left (List.getElem?_eq_some_iff.mp hk).1, hk]
  | cancelToken c l =>
      show (c.tokens.set l true)[k]? = some true
      rw [List.getElem?_set]
      split
      · rename_i hlk
        rw [if_pos (hlk ▸ (List.getElem?_eq_some_iff.mp hk).1)]
      · exact hk
  | _ => exact hk

/-- The end cancels all tokens, and those that are handed out later. -/
theorem Move.tokens_of_done {s : Surroundings} {actor : Actor} {c c' : Context}
    {events : List Event} (h : Move s actor c events c')
    (hbefore : c.done = true → ∀ b ∈ c.tokens, b = true) :
    c'.done = true → ∀ b ∈ c'.tokens, b = true := by
  have hended : ∀ b ∈ c.tokens.map fun _ => true, b = true := by simp
  cases h with
  | orphaned _ _ _ => exact fun _ => hended
  | givenUp _ _ _ => exact fun _ => hended
  | expired _ _ _ _ => exact fun _ => hended
  | cancel _ _ => exact fun _ => hended
  | handOutToken c =>
      intro hdone b hb
      rcases List.mem_append.mp hb with hold | hnew
      · exact hbefore hdone b hold
      · rw [List.mem_singleton.mp hnew]
        exact hdone
  | cancelToken c l =>
      intro hdone b hb
      rcases List.mem_or_eq_of_mem_set hb with hold | rfl
      · exact hbefore hdone b hold
      · rfl
  | _ => exact hbefore

theorem tokens_invariant : Invariant fun _ c _ _ => c.done = true → ∀ b ∈ c.tokens, b = true where
  start _ _ _ _ _ _ _ _ _ h := absurd h Bool.false_ne_true
  move _ _ _ _ _ _ _ h hmove := hmove.tokens_of_done h
  pass _ _ _ _ _ _ h _ := h

/-- Nobody but a holder touches the tokens of a context that does not end. -/
theorem Moves.tokens_of_live {s : Surroundings} {actor : Actor} {c c' : Context}
    {events : List Event} (h : Moves s actor c events c') (hactor : actor ≠ .holder)
    (hlive : c'.done = false) : c'.tokens = c.tokens := by
  induction h with
  | none c => rfl
  | @cons c c₁ c₂ events more first rest ih =>
      -- an end that was signalled on the way would still be
      have hlive₁ : c₁.done = false := by
        refine Bool.eq_false_iff.mpr fun hdone => ?_
        rw [rest.keeps (fun hmove => hmove.done_of_done) hdone] at hlive
        exact absurd hlive (by simp)
      have hfirst : c₁.tokens = c.tokens := by
        cases first with
        | orphaned _ _ _ => exact absurd hlive₁ (by simp [ended])
        | givenUp _ _ _ => exact absurd hlive₁ (by simp [ended])
        | expired _ _ _ _ => exact absurd hlive₁ (by simp [ended])
        | cancel _ _ => exact absurd hlive₁ (by simp [ended])
        | handOutToken c => exact absurd rfl hactor
        | cancelToken c l => exact absurd rfl hactor
        | _ => rfl
      exact (ih hlive).trans hfirst

end Context

theorem Caller.tokens_abandon (k : Caller α) (c : Context) :
    (k.abandon c).2.1.tokens = c.tokens := by
  unfold abandon
  dsimp only
  split <;> rfl

namespace World

/-- The holder of token `k` of attempt `i` cancels it. -/
def CancelsToken (w : World α) (i k : Nat) (a : Action α) : Prop :=
  a = .cancelToken i k ∧ ∃ c, w.context? i = some c ∧ k < c.tokens.length

/-- A token of a context that has not ended is cancelled by its holder only. -/
theorem Effect.token {w : World α} (hw : w.Reachable) {i : Nat} {c c' : Context}
    {a : Action α} {events : List Event} (hc : w.context? i = some c)
    (h : w.Effect i c a c' events) (hlive : c'.done = false) {k : Nat}
    (hk : c'.tokens[k]? = some true) :
    c.tokens[k]? = some true ∨ w.CancelsToken i k a := by
  obtain ⟨_, agent, hagent⟩ := hw.grounded.context_agent hc
  have hmoves := h.moves hagent (hw.grounded.signalled i c hc)
  cases h with
  | renewal _ => exact .inl (hmoves.tokens_of_live (by simp [actor]) hlive ▸ hk)
  | destruction _ => exact .inl (hmoves.tokens_of_live (by simp [actor]) hlive ▸ hk)
  | caller _ _ => exact .inl (hmoves.tokens_of_live (by simp [actor]) hlive ▸ hk)
  | abandon _ _ => exact .inl (Caller.tokens_abandon _ c ▸ hk)
  | drop => exact .inl hk
  | handOutToken =>
      have hnew : (c.tokens ++ [c.done])[k]? = some true := hk
      rw [List.getElem?_append] at hnew
      split at hnew
      · exact .inl hnew
      · have hdone := List.mem_singleton.mp (List.mem_of_getElem? hnew)
        exact absurd (hdone.trans hlive) (by simp)
  | cancelToken l =>
      have hset : (c.tokens.set l true)[k]? = some true := hk
      rw [List.getElem?_set] at hset
      split at hset
      · rename_i hlk
        split at hset
        · rename_i hlt
          exact .inr ⟨by rw [hlk], c, hc, hlk ▸ hlt⟩
        · exact absurd hset (by simp)
      · exact .inl hset
  | none => exact .inl hk

theorem token_cancelled_once {start : World α} (hstart : start.Reachable) {i : Nat}
    (hnone : start.context? i = none) {actions : List (Action α)} {c : Context}
    (hc : (start.run actions).context? i = some c) (hlive : c.done = false) {k : Nat}
    (hk : c.tokens[k]? = some true) :
    start.Once actions fun u a => u.CancelsToken i k a := by
  induction actions using List.reverseRecOn generalizing c with
  | nil => exact absurd (hnone.symm.trans hc) (by simp)
  | append_singleton actions a ih =>
      have hw := hstart.run actions
      rw [run_concat] at hc
      rcases context?_before hc with ⟨cu, _, hbefore, _, heffect⟩ |
        ⟨_, b, session, id, _, _, _, rfl, _⟩
      · rcases heffect.token hw hbefore hlive hk with hold | hnow
        -- before this step the context had not ended either
        · refine (ih hbefore ?_ hold).earlier a
          refine Bool.eq_false_iff.mpr fun hdone => ?_
          obtain ⟨c', hc', hdone'⟩ := hw.keeps_step hbefore
            (fun hmove => hmove.done_of_done) hdone a
          obtain rfl := Option.some.inj (hc.symm.trans hc')
          rw [hlive] at hdone'
          exact absurd hdone' (by simp)
        · exact .last hnow
      · exact absurd hk (by simp [Context.start])

/-- **Tokens.** A token is cancelled if and only if the context has ended or its holder
has cancelled it. -/
theorem token_cancelled_iff {start : World α} (hstart : start.Reachable) {i : Nat}
    (hnone : start.context? i = none) {actions : List (Action α)} {c : Context}
    (hc : (start.run actions).context? i = some c) {k : Nat} {b : Bool}
    (hk : c.tokens[k]? = some b) :
    b = true ↔ c.done = true ∨ start.Once actions fun u a => u.CancelsToken i k a := by
  constructor
  · rintro rfl
    cases hdone : c.done with
    | true => exact .inl rfl
    | false => exact .inr (token_cancelled_once hstart hnone hc hdone hk)
  · rintro (hdone | ⟨before, a, after, rfl, rfl, cu, hcu, hlt⟩)
    · exact Context.tokens_invariant.holds (hstart.run actions) hc hdone b
        (List.mem_of_getElem? hk)
    · -- from its cancellation on, the token stays cancelled
      have hu := hstart.run before
      have hstep : ((start.run before).step (.cancelToken i k)).context? i =
          some (cu.cancelToken k) := by
        show ((start.run before).updateContext i _ _).context? i = _
        unfold updateContext
        rw [hcu]
        exact context?_setContext_self _ hcu
      have hset : (cu.cancelToken k).tokens[k]? = some true := List.getElem?_set_self hlt
      obtain ⟨c', hc', hstays⟩ := (hu.step (.cancelToken i k)).keeps hstep
        (fun hmove => hmove.token_stays) hset after
      rw [run_append, run_cons] at hc
      obtain rfl := Option.some.inj (hc.symm.trans hc')
      exact Option.some.inj (hk.symm.trans hstays)

end World

end Tenure.Lifecycle
