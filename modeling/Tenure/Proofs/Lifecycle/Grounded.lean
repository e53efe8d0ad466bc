import Tenure.Proofs.Lifecycle.Opening

/-!
# Reachable worlds hang together

`World.Grounded` ties the parts of a reachable world together: journal lines
belong to attempts that there are, the agents of attempts are there, a context
carries the session that the configuration of its attempt resolves to, and its
end is signalled as soon as there is a terminal error.

* `World.context?_before` — where a context comes from in one step;
* `World.Reachable.grounded` — every reachable world is grounded.
-/

namespace Tenure.Lifecycle

variable {α : Type}

theorem Context.Move.signalled {s : Surroundings} {actor : Actor} {c c' : Context}
    {events : List Event} (h : Context.Move s actor c events c') (hs : c.Signalled) :
    c'.Signalled := by
  cases h <;> first | exact hs | rfl

theorem Context.Moves.signalled {s : Surroundings} {actor : Actor} {c c' : Context}
    {events : List Event} (h : Context.Moves s actor c events c') (hs : c.Signalled) :
    c'.Signalled := h.keeps (fun hmove => hmove.signalled) hs

namespace World

/-- What ties the attempts, the contexts and the journal of a world together. -/
structure Grounded (w : World α) : Prop where
  placed : ∀ e ∈ w.journal, e.attempt < w.attempts.length
  served : ∀ (i : Nat) (b : Attempt), w.attempts[i]? = some b → b.agent < w.agents.length
  resolved : ∀ (i : Nat) (b : Attempt), w.attempts[i]? = some b → b.Resolved
  signalled : ∀ i c, w.context? i = some c → c.Signalled
  opening : ∀ i, w.context? i = none → ∀ e ∈ w.log i, e.2.isOpening = true

/-- The agent of a context is there, and it is the one the attempt was made with. -/
theorem Grounded.context_agent {w : World α} (hg : w.Grounded) {i : Nat} {c : Context}
    (h : w.context? i = some c) :
    w.agentOf i = c.agent ∧ ∃ agent, w.agents[c.agent]? = some agent := by
  obtain ⟨b, hb, hstage⟩ := context?_eq_some_iff.mp h
  have hresolved := hg.resolved i b hb
  unfold Attempt.Resolved at hresolved
  rw [hstage] at hresolved
  obtain ⟨_, _, _, hagent, _⟩ := hresolved
  have hserved := hg.served i b hb
  rw [← hagent] at hserved
  refine ⟨?_, _, List.getElem?_eq_getElem hserved⟩
  unfold agentOf
  rw [hb, hagent]
  rfl

/-- An action enters events of one attempt that there is. -/
theorem step_journal (w : World α) (a : Action α) : ∃ j events,
    (w.step a).journal = w.journal ++ events.map (fun e => ⟨w.now, j, e⟩) ∧
      (events ≠ [] → j < w.attempts.length) := by
  cases step_change w a with
  | none _ _ _ hj => exact ⟨0, [], by rw [hj]; simp, by simp⟩
  | passed t hw' _ _ _ => exact ⟨0, [], by rw [hw']; simp, by simp⟩
  | made _ _ _ _ _ _ hj => exact ⟨0, [], by rw [hj]; simp, by simp⟩
  | opening _ _ j b agent _ hb _ hj =>
      exact ⟨j, _, hj, fun _ => (List.getElem?_eq_some_iff.mp hb).1⟩
  | context _ _ j c c' events hc _ _ hj => exact ⟨j, events, hj, fun _ => lt_of_context? hc⟩

/-- Logs grow at their end. -/
theorem log_prefix_step (w : World α) (a : Action α) (i : Nat) : w.log i <+: (w.step a).log i := by
  obtain ⟨j, events, hjournal, _⟩ := step_journal w a
  have hlog : (w.step a).log i = (w.enter j events).log i := log_congr hjournal i
  rw [hlog, log_enter]
  exact List.prefix_append _ _

theorem log_prefix_run (w : World α) (more : List (Action α)) (i : Nat) :
    w.log i <+: (w.run more).log i := by
  induction more generalizing w with
  | nil => exact List.prefix_refl _
  | cons a rest ih => exact (log_prefix_step w a i).trans (ih (w.step a))

/-- With only one attempt, the whole journal is about it. -/
theorem Grounded.attempt_eq_zero {w : World α} (hg : w.Grounded)
    (hsingle : w.attempts.length ≤ 1) {e : Entry} (he : e ∈ w.journal) : e.attempt = 0 := by
  have hplaced := hg.placed e he
  omega

theorem Grounded.filter_journal {w : World α} (hg : w.Grounded)
    (hsingle : w.attempts.length ≤ 1) : w.journal.filter (·.attempt == 0) = w.journal :=
  List.filter_eq_self.mpr fun e he => by rw [hg.attempt_eq_zero hsingle he]; rfl

theorem step_agents (w : World α) (a : Action α) : (w.step a).agents = w.agents := by
  cases step_change w a with
  | none hkept _ _ _ => exact hkept.agents
  | passed t hw' _ _ _ => rw [hw']
  | made hkept _ _ _ _ _ _ => exact hkept.agents
  | opening hkept _ _ _ _ _ _ _ _ => exact hkept.agents
  | context hkept _ _ _ _ _ _ _ _ _ => exact hkept.agents

theorem step_scopes (w : World α) (a : Action α) (i : Nat)
    (h : w.scopes.isCancelled i = true) : (w.step a).scopes.isCancelled i = true := by
  cases step_change w a with
  | none hkept _ _ _ => exact hkept.scopes i h
  | passed t hw' _ _ _ => rw [hw']; exact h
  | made hkept _ _ _ _ _ _ => exact hkept.scopes i h
  | opening hkept _ _ _ _ _ _ _ _ => exact hkept.scopes i h
  | context hkept _ _ _ _ _ _ _ _ _ => exact hkept.scopes i h

/-- A context that is there after a step was there before it, or is a new one. -/
theorem context?_before {w : World α} {i : Nat} {c : Context} {a : Action α}
    (h : (w.step a).context? i = some c) :
    (∃ c₀, ∃ events : List Event, w.context? i = some c₀ ∧
        (w.step a).log i = w.log i ++ events.map (w.now, ·) ∧ w.Effect i c₀ a c events) ∨
      w.context? i = none ∧ ∃ b session id, ∃ events : List Event,
        w.attempts[i]? = some b ∧ b.Offers session ∧
        c = .start { session with id := id } b.agent b.parent w.now ∧
        (w.step a).log i = w.log i ++ events.map (w.now, ·) ∧
        ∀ e ∈ events, e.isOpening = true := by
  cases hbefore : w.context? i with
  | some c₀ =>
      obtain ⟨c', events, hc', hlog, heffect⟩ := step_effect hbefore a
      obtain rfl := Option.some.inj (h.symm.trans hc')
      exact .inl ⟨c₀, events, rfl, hlog, heffect⟩
  | none =>
      obtain ⟨events, hlog, hopening, hnext⟩ := step_opens hbefore a
      rcases hnext with hnone | ⟨b, session, id, hb, hoffers, hc'⟩
      · rw [hnone] at h
        exact absurd h (by simp)
      · obtain rfl := Option.some.inj (h.symm.trans hc')
        exact .inr ⟨rfl, b, session, id, events, hb, hoffers, rfl, hlog, hopening⟩

/-- An attempt without a context leaves only opening events in the next step, too. -/
theorem Grounded.opening_step {w : World α} (hg : w.Grounded) {i : Nat}
    (hnone : w.context? i = none) (a : Action α) :
    ∀ e ∈ (w.step a).log i, e.2.isOpening = true := by
  intro e he
  obtain ⟨events, hlog, hopening, _⟩ := step_opens hnone a
  rw [hlog] at he
  rcases List.mem_append.mp he with hold | hnew
  · exact hg.opening i hnone e hold
  · obtain ⟨x, hx, rfl⟩ := List.mem_map.mp hnew
    exact hopening x hx

theorem Grounded.step {w : World α} (hg : w.Grounded) (a : Action α) :
    (w.step a).Grounded := by
  refine ⟨?_, ?_, ?_, ?_, ?_⟩
  · -- placed
    intro e he
    obtain ⟨j, events, hjournal, hj⟩ := step_journal w a
    rw [hjournal] at he
    refine Nat.lt_of_lt_of_le ?_ (step_length w a)
    rcases List.mem_append.mp he with hold | hnew
    · exact hg.placed e hold
    · obtain ⟨x, hx, rfl⟩ := List.mem_map.mp hnew
      exact hj (List.ne_nil_of_mem hx)
  · -- served
    intro i b' hb'
    rw [step_agents]
    rcases attempt_before hb' with ⟨b, stage, hb, rfl, _⟩ | ⟨_, hagent⟩
    · exact hg.served i b hb
    · exact hagent
  · -- resolved
    intro i b' hb'
    rcases attempt_before hb' with ⟨b, stage, hb, rfl, hnext⟩ | ⟨hfresh, _⟩
    · cases hnext with
      | same => exact hg.resolved i b hb
      | turn hturn => exact hturn.resolved (hg.resolved i b hb)
      | context hstage heffect =>
          have hc := context?_eq_some_iff.mpr ⟨b, hb, hstage⟩
          obtain ⟨_, agent, hagent⟩ := hg.context_agent hc
          have hframe := (heffect.moves hagent (hg.signalled i _ hc)).frame
          exact (hg.resolved i b hb).of_frame hstage hframe
    · unfold Attempt.Resolved
      rw [hfresh]
      trivial
  · -- signalled
    intro i c hc
    rcases context?_before hc with
      ⟨c₀, events, hc₀, _, heffect⟩ | ⟨_, b, session, id, _, _, _, rfl, _⟩
    · obtain ⟨_, agent, hagent⟩ := hg.context_agent hc₀
      have hs := hg.signalled i c₀ hc₀
      exact (heffect.moves hagent hs).signalled hs
    · rfl
  · -- opening
    intro i hnone
    cases hc : w.context? i with
    | none => exact hg.opening_step hc a
    | some c =>
        obtain ⟨c', _, hc', _⟩ := step_effect hc a
        rw [hnone] at hc'
        exact absurd hc' (by simp)

theorem untouched_grounded (agents : List Agent) (scopes : Scopes) (now : Nat) :
    (untouched agents scopes now : World α).Grounded := by
  refine ⟨?_, ?_, ?_, ?_, ?_⟩
  · intro e he
    exact absurd he (by simp [untouched])
  · intro i b hb
    exact absurd hb (by simp [untouched])
  · intro i b hb
    exact absurd hb (by simp [untouched])
  · intro i c hc
    exact absurd hc (by simp [untouched, context?])
  · intro i _ e he
    exact absurd he (by simp [untouched, log])

/-- Reachable worlds hang together. -/
theorem Reachable.grounded {w : World α} (h : w.Reachable) : w.Grounded := by
  induction h with
  | start agents scopes now => exact untouched_grounded agents scopes now
  | step a _ ih => exact ih.step a

end World

end Tenure.Lifecycle
