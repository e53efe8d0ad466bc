import Tenure.Proofs.Lifecycle.Progress
import Tenure.Proofs.Lifecycle.TerminalError

/-!
# Contexts that are left alone

A run spares a context if nobody cancels or closes it and its owner does not give
it up. As long as its parent scope is not cancelled either, only its renewals can
end it.

* `Action.spares` — the actions that leave a context alone;
* `World.spared_callers` — a spared context has only callers that look on;
* `World.spared_error` — a spared context ends because of a failed renewal.
-/

namespace Tenure.Lifecycle

variable {α : Type}

/-- Whether the demand asks for the end. -/
def Demand.ends : Demand α → Bool
  | .cancel => true
  | .close => true
  | _ => false

/-- Whether the action leaves the context of attempt `i` alone: nobody asks for its end,
and its owner does not give it up. -/
def Action.spares (i : Nat) : Action α → Bool
  | .call j demand => j != i || !demand.ends
  | .drop j => j != i
  | _ => true

theorem World.next_spares (w : World α) (i : Nat) : w.next.spares i = true := by
  unfold World.next
  split <;> rfl

/-- Whether the caller only looks on: nothing that it does can end the context. -/
def Caller.looksOn (k : Caller α) : Bool :=
  match k.activity with
  | .cancel => false
  | .close => false
  | .awaitDestroyed _ => false
  | .awaitRenewal => false
  | _ => true

namespace Caller

theorem looksOn_poll {k : Caller α} (h : k.looksOn = true) (now : Nat) (c : Context) :
    (k.poll now c).1.looksOn = true := by
  unfold looksOn at h
  unfold poll
  cases hactivity : k.activity with
  | awaitEnd =>
      dsimp only
      split
      · rfl
      · unfold looksOn
        rw [hactivity]
  | scope work =>
      dsimp only
      split
      · rfl
      · split <;> rfl
  | perform work =>
      dsimp only
      split <;> rfl
  | returned o => unfold looksOn; rw [hactivity]
  | abandoned => unfold looksOn; rw [hactivity]
  | _ => rw [hactivity] at h; exact absurd h Bool.false_ne_true

theorem looksOn_abandon {k : Caller α} (h : k.looksOn = true) (c : Context) :
    (k.abandon c).1.looksOn = true := by
  unfold looksOn at h
  unfold abandon
  cases hactivity : k.activity with
  | awaitEnd => rfl
  | scope work => rfl
  | perform work => rfl
  | returned o => unfold looksOn; rw [hactivity]
  | abandoned => unfold looksOn; rw [hactivity]
  | _ => rw [hactivity] at h; exact absurd h Bool.false_ne_true

/-- A caller that looks on leaves the context as it is. -/
theorem context_poll {k : Caller α} (h : k.looksOn = true) (now : Nat) (c : Context) :
    (k.poll now c).2.1 = c := by
  unfold looksOn at h
  unfold poll
  cases hactivity : k.activity with
  | awaitEnd =>
      dsimp only
      split <;> rfl
  | scope work =>
      dsimp only
      split
      · rfl
      · split <;> rfl
  | perform work =>
      dsimp only
      split <;> rfl
  | returned o => rfl
  | abandoned => rfl
  | _ => rw [hactivity] at h; exact absurd h Bool.false_ne_true

theorem context_abandon {k : Caller α} (h : k.looksOn = true) (c : Context) :
    (k.abandon c).2.1 = c := by
  unfold looksOn at h
  unfold abandon
  cases hactivity : k.activity with
  | awaitEnd => rfl
  | scope work => rfl
  | perform work => rfl
  | returned o => rfl
  | abandoned => rfl
  | cancel => rfl
  | close => rw [hactivity] at h; exact absurd h Bool.false_ne_true
  | awaitDestroyed closing => rw [hactivity] at h; exact absurd h Bool.false_ne_true
  | awaitRenewal => rw [hactivity] at h; exact absurd h Bool.false_ne_true

theorem not_asks {k : Caller α} (h : k.looksOn = true) : ¬k.asks := by
  intro hasks
  unfold looksOn at h
  rcases hasks with hactivity | hactivity
  · rw [hactivity] at h
    exact absurd h Bool.false_ne_true
  · rw [hactivity] at h
    exact absurd h Bool.false_ne_true

end Caller

namespace World

variable {start : World α} {i : Nat} {actions : List (Action α)}

/-- A spared context has only callers that look on. -/
theorem spared_callers (hstart : start.callers = [])
    (hspared : ∀ a ∈ actions, a.spares i = true) {j : Nat} {k : Caller α}
    (hk : (start.run actions).callers[j]? = some k) (hi : k.attempt = i) :
    k.looksOn = true := by
  induction actions using List.reverseRecOn generalizing k with
  | nil =>
      rw [run_nil, hstart] at hk
      exact absurd hk (by simp)
  | append_singleton actions a ih =>
      have hbefore : ∀ {k : Caller α}, (start.run actions).callers[j]? = some k →
          k.attempt = i → k.looksOn = true :=
        ih fun b hb => hspared b (List.mem_append_left _ hb)
      have hnow := hspared a (List.mem_append_right _ List.mem_cons_self)
      rw [run_concat] at hk
      cases callers_step hk with
      | same hold => exact hbefore hold hi
      -- a caller that has come for this context asks for nothing that ends it
      | @comes l demand ha _ =>
          subst ha
          obtain rfl : l = i := hi
          cases demand with
          | cancel => exact absurd hnow (by simp [Action.spares, Demand.ends])
          | close => exact absurd hnow (by simp [Action.spares, Demand.ends])
          | _ => rfl
      | polled hold _ =>
          rw [Caller.attempt_poll] at hi
          exact Caller.looksOn_poll (hbefore hold hi) _ _
      | abandoned hold _ =>
          rw [Caller.attempt_abandon] at hi
          exact Caller.looksOn_abandon (hbefore hold hi) _

/-- The owner of a spared context does not give it up. -/
theorem spared_dropped (hstart : start.Reachable) (hcallers : start.callers = [])
    (hnone : start.context? i = none) (hspared : ∀ a ∈ actions, a.spares i = true)
    {c : Context} (hc : (start.run actions).context? i = some c) : c.dropped = false := by
  induction actions using List.reverseRecOn generalizing c with
  | nil => exact absurd (hnone.symm.trans hc) (by simp)
  | append_singleton actions a ih =>
      have hearlier : ∀ b ∈ actions, b.spares i = true :=
        fun b hb => hspared b (List.mem_append_left _ hb)
      have hnow := hspared a (List.mem_append_right _ List.mem_cons_self)
      have hw := hstart.run actions
      rw [run_concat] at hc
      rcases context?_before hc with ⟨cu, events, hbefore, _, heffect⟩ |
        ⟨_, b, session, id, _, _, _, rfl, _⟩
      · have hkept := ih hearlier hbefore
        obtain ⟨_, agent, hagent⟩ := hw.grounded.context_agent hbefore
        have hs := hw.grounded.signalled i cu hbefore
        have hlooksOn := fun {j : Nat} {k : Caller α} hk hi =>
          spared_callers (j := j) (k := k) hcallers hearlier hk hi
        have hmoves := heffect.moves hagent hs
        cases heffect with
        | renewal h => exact (hmoves.dropped_of_task rfl).trans hkept
        | destruction h => exact (hmoves.dropped_of_task rfl).trans hkept
        | caller hk hi =>
            rw [Caller.context_poll (hlooksOn hk hi)]
            exact hkept
        | abandon hk hi =>
            rw [Caller.context_abandon (hlooksOn hk hi)]
            exact hkept
        | drop => exact absurd hnow (by simp [Action.spares])
        | handOutToken => exact hkept
        | cancelToken k => exact hkept
        | none => exact hkept
      · rfl

/-- A scope that is not cancelled was not cancelled before. -/
theorem run_scopes (w : World α) (more : List (Action α)) (j : Nat)
    (h : w.scopes.isCancelled j = true) : (w.run more).scopes.isCancelled j = true := by
  induction more generalizing w with
  | nil => exact h
  | cons a rest ih => exact ih (w.step a) (step_scopes w a j h)

/-- **Only its renewals can end a spared context.** -/
theorem spared_error (hstart : start.Reachable) (hcallers : start.callers = [])
    (hnone : start.context? i = none) (hspared : ∀ a ∈ actions, a.spares i = true)
    {c : Context} (hc : (start.run actions).context? i = some c)
    (hparent : (start.run actions).scopes.isCancelled c.parent = false) {e : SessionError}
    (he : c.error = some e) : ∃ cause, e = .renewFailed c.session.id cause := by
  obtain ⟨before, a, after, rfl, cu, hrecords, hjustifies⟩ :=
    recorded_once hstart hnone hc he
  have hearlier : ∀ b ∈ before, b.spares i = true :=
    fun b hb => hspared b (List.mem_append_left _ hb)
  -- what the error says was the case when it was written, and neither cancelling could be
  have hframe : c.session = cu.session ∧ c.parent = cu.parent := by
    obtain ⟨c', hc', hsame⟩ := (hstart.run before).keeps hrecords.before
      (P := fun c' => c'.session = cu.session ∧ c'.parent = cu.parent)
      (fun hmove h => ⟨hmove.frame.1.trans h.1, hmove.frame.2.2.1.trans h.2⟩) ⟨rfl, rfl⟩
      (a :: after)
    rw [← run_append] at hc'
    obtain rfl := Option.some.inj (hc.symm.trans hc')
    exact hsame
  cases e with
  | config reason => exact hjustifies.elim
  | create cause => exact hjustifies.elim
  | cancelled =>
      rcases hjustifies with ⟨j, k, _, hk, hi, hasks⟩ | ⟨hdropped, _⟩
      · exact absurd hasks (Caller.not_asks (spared_callers hcallers hearlier hk hi))
      · rw [spared_dropped hstart hcallers hnone hearlier hrecords.before] at hdropped
        exact absurd hdropped Bool.false_ne_true
  | parentCancelled =>
      have hlater := run_scopes _ (a :: after) _ hjustifies
      rw [← run_append, ← hframe.2, hparent] at hlater
      exact absurd hlater Bool.false_ne_true
  | renewFailed id cause =>
      obtain rfl : id = cu.session.id := hjustifies
      exact ⟨cause, by rw [hframe.1]⟩

end World

end Tenure.Lifecycle
