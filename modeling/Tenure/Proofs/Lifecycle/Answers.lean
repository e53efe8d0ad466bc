import Mathlib.Data.List.Basic
import Tenure.Proofs.Lifecycle.Grounded

/-!
# The answers to renewals

`World.renewalAnswers` reads from the journal what the agent has answered to the
renewals of an attempt. A step of the run adds an answer exactly when it issues a
renewal, and then the one that the renewal task is given in that step.

* `World.Effect.renewsFirst` — an effect issues at most one renewal, before
  everything else, and it renews the session of the context;
* `World.renewalAnswers_of_effect` — the answers after a step.
-/

namespace Tenure.Lifecycle

variable {α : Type}

/-! ## The renewals of an effect -/

/-- The renewals among events: at most one, the first of them, of the session `id` and
only if one is due. -/
inductive RenewsFirst (id : String) (due : Prop) : List Event → Prop
  | none {events : List Event} (hnone : ∀ e ∈ events, e.renewCall? = none) :
      RenewsFirst id due events
  | first {e : Event} {rest : List Event} (hdue : due) (hfirst : e.renewCall? = some id)
      (hrest : ∀ e ∈ rest, e.renewCall? = none) : RenewsFirst id due (e :: rest)

namespace Context

/-- The renewal task is about to issue a renewal: it is waiting for a tick that has come,
and nothing that goes before the tick keeps it from that. -/
structure RenewalDue (c : Context) (now : Nat) (parentCancelled : Bool) : Prop where
  tick : ∃ tick expiry, c.renewal = .waiting tick expiry ∧ isDue tick now = true
  live : c.done = false
  parent : parentCancelled = false
  owner : c.dropped = false

theorem renewCall?_conclude (c : Context) (e : SessionError) :
    ∀ x ∈ (c.conclude e).2, x.renewCall? = none := by
  intro x hx
  unfold conclude at hx
  split at hx
  · exact absurd hx List.not_mem_nil
  · rw [List.mem_singleton.mp hx]
    rfl

theorem renewCall?_renewalFailed (c : Context) (tick expiry : Nat) (call : Pending Unit)
    (cause : ClientError) :
    ∀ x ∈ (c.renewalFailed tick expiry call cause).2, x.renewCall? = none := by
  intro x hx
  unfold renewalFailed at hx
  split at hx
  · rw [List.mem_singleton.mp hx]
    rfl
  · rcases List.mem_cons.mp hx with rfl | hx
    · rfl
    · exact renewCall?_conclude c _ x hx

theorem renewCall?_pollRenewing (s : Surroundings) (c : Context) (tick expiry : Nat)
    (call : Pending Unit) :
    ∀ e ∈ (c.pollRenewing s tick expiry call).2, e.renewCall? = none := by
  intro e he
  unfold pollRenewing at he
  split at he
  · rw [List.mem_singleton.mp he]
    rfl
  · split at he
    · exact absurd he List.not_mem_nil
    · rcases List.mem_pair.mp he with rfl | rfl <;> rfl
    · rcases List.mem_cons.mp he with rfl | he
      · rfl
      · exact renewCall?_renewalFailed c tick expiry call _ e he
    · rcases List.mem_cons.mp he with rfl | he
      · rfl
      · exact renewCall?_renewalFailed c tick expiry call _ e he

/-- A turn of the renewal task renews the session of the context, and nothing else. -/
theorem pollRenewal_renewsFirst {c : Context} (hs : c.Signalled) (s : Surroundings) :
    RenewsFirst c.session.id (c.RenewalDue s.now s.parentCancelled) (c.pollRenewal s).2 := by
  unfold pollRenewal
  split
  · rename_i tick expiry hrenewal
    split
    · exact .none (by simp)
    rename_i hdone
    split
    · exact .none (renewCall?_conclude c _)
    rename_i hparent
    split
    · exact .none (renewCall?_conclude c _)
    rename_i hdropped
    split
    · rename_i hdue
      -- the tick has come and nothing goes before it, which is what makes the renewal due
      have hframe := (pollRenewing_moves s hs (c.nextTick tick s.now) expiry
        (.issue s.number s.now s.renewAnswer c.period)).frame
      refine .first ⟨⟨tick, expiry, hrenewal, hdue⟩, ?_, ?_, ?_⟩ ?_
        (renewCall?_pollRenewing s c _ expiry _)
      · exact Bool.eq_false_iff.mpr hdone
      · exact Bool.eq_false_iff.mpr hparent
      · exact Bool.eq_false_iff.mpr hdropped
      · dsimp only [Event.renewCall?]
        rw [hframe.1]
    · exact .none (by simp)
  · exact .none (renewCall?_pollRenewing s c _ _ _)
  · split <;> exact .none (by simp)
  · exact .none (by simp)

theorem renewCall?_pollDestroying (s : Surroundings) (c : Context) (call : Pending Unit) :
    ∀ e ∈ (c.pollDestroying s call).2, e.renewCall? = none := by
  intro e he
  unfold pollDestroying at he
  split at he
  · exact absurd he List.not_mem_nil
  all_goals rcases List.mem_pair.mp he with rfl | rfl <;> rfl

theorem renewCall?_pollDestruction (s : Surroundings) (c : Context) :
    ∀ e ∈ (c.pollDestruction s).2, e.renewCall? = none := by
  intro e he
  unfold pollDestruction at he
  split at he
  · rcases List.mem_cons.mp he with rfl | he
    · rfl
    · exact renewCall?_pollDestroying s c _ e he
  · exact renewCall?_pollDestroying s c _ e he
  · exact absurd he List.not_mem_nil

end Context

namespace Caller

theorem renewCall?_pollAwaitDestroyed (k : Caller α) (c : Context) (closing : Bool) :
    ∀ e ∈ (k.pollAwaitDestroyed c closing).2.2, e.renewCall? = none := by
  intro e he
  unfold pollAwaitDestroyed pollAwaitRenewal at he
  split at he
  · split at he
    · split at he
      · rw [List.mem_singleton.mp he]
        rfl
      · exact absurd he List.not_mem_nil
    · exact absurd he List.not_mem_nil
  · exact absurd he List.not_mem_nil

/-- Callers issue no renewals. -/
theorem renewCall?_poll (k : Caller α) (now : Nat) (c : Context) :
    ∀ e ∈ (k.poll now c).2.2, e.renewCall? = none := by
  have hcancel : ∀ closing, ∀ e ∈ (k.pollCancel c closing).2.2, e.renewCall? = none := by
    intro closing e he
    rcases List.mem_append.mp he with he | he
    · exact Context.renewCall?_conclude c _ e he
    · exact renewCall?_pollAwaitDestroyed k _ closing e he
  have hwork : ∀ (f : WorkStep → Event) (steps : List WorkStep),
      (∀ step, (f step).isWork = true) → ∀ e ∈ steps.map f, e.renewCall? = none :=
    fun f steps hf e he => Event.renewCall?_of_isWork (isWork_map steps hf e he)
  intro e he
  unfold poll at he
  split at he
  · exact hcancel _ e he
  · exact hcancel _ e he
  · exact renewCall?_pollAwaitDestroyed k c _ e he
  · unfold pollAwaitRenewal at he
    split at he
    · rw [List.mem_singleton.mp he]
      rfl
    · exact absurd he List.not_mem_nil
  · split at he <;> exact absurd he List.not_mem_nil
  · split at he
    · exact absurd he List.not_mem_nil
    · split at he <;> exact hwork _ _ (fun _ => rfl) e he
  · split at he <;> exact hwork _ _ (fun _ => rfl) e he
  · exact absurd he List.not_mem_nil
  · exact absurd he List.not_mem_nil

theorem renewCall?_abandon (k : Caller α) (c : Context) :
    ∀ e ∈ (k.abandon c).2.2, e.renewCall? = none := by
  intro e he
  unfold abandon at he
  dsimp only at he
  split at he
  all_goals first
    | exact absurd he List.not_mem_nil
    | (rw [List.mem_singleton.mp he]; rfl)

end Caller

theorem World.Effect.renewsFirst {w : World α} {i : Nat} {c c' : Context} {a : Action α}
    {events : List Event} (hs : c.Signalled) (h : w.Effect i c a c' events) :
    RenewsFirst c.session.id (c.RenewalDue w.now (w.scopes.isCancelled c.parent)) events := by
  cases h with
  | @renewal agent _ => exact Context.pollRenewal_renewsFirst hs (w.surroundings agent c)
  | destruction _ => exact .none (Context.renewCall?_pollDestruction _ c)
  | caller _ _ => exact .none (Caller.renewCall?_poll _ w.now c)
  | abandon _ _ => exact .none (Caller.renewCall?_abandon _ c)
  | drop => exact .none (by simp [Event.renewCall?])
  | handOutToken => exact .none (by simp)
  | cancelToken k => exact .none (by simp)
  | none => exact .none (by simp)

namespace World

/-! ## Answers to renewals -/

/-- What renewals among events are answered, if `answer` is the answer to each. -/
def answersAmong (answer : Answer Unit) (events : List Event) : List (Answer Unit) :=
  events.filterMap fun e => e.renewCall?.map fun _ => answer

/-- The agent of an attempt stays the same. -/
theorem agentOf_step {w : World α} {j : Nat} (hj : j < w.attempts.length) (a : Action α) :
    (w.step a).agentOf j = w.agentOf j := by
  have hb := List.getElem?_eq_getElem hj
  obtain ⟨stage, hstays, _⟩ := step_attempt hb a
  unfold agentOf
  rw [hstays, hb]
  rfl

/-- What an agent had been asked before does not change. -/
theorem historyAt_step {w : World α} (hg : w.Grounded) (a : Action α) (agent : Nat)
    {m : Nat} (hm : m ≤ w.journal.length) :
    (w.step a).historyAt agent m = w.historyAt agent m := by
  obtain ⟨j, events, hjournal, _⟩ := step_journal w a
  have htake : (w.step a).journal.take m = w.journal.take m := by
    rw [hjournal, List.take_append_of_le_length hm]
  unfold historyAt history
  simp only [htake]
  congr 1
  refine List.filter_congr fun e he => ?_
  have hplaced := hg.placed e (List.mem_of_mem_take he)
  show ((w.step a).agentOf e.attempt == agent) = (w.agentOf e.attempt == agent)
  rw [agentOf_step hplaced a]

theorem historyAt_length (w : World α) (agent : Nat) :
    w.historyAt agent w.journal.length = w.history agent := by
  unfold historyAt
  rw [List.take_length]

/-- The answer to a renewal in the journal does not change. -/
theorem renewalAnswer?_step {w : World α} (hg : w.Grounded) (a : Action α) (i : Nat)
    {m : Nat} (hm : m < w.journal.length) :
    (w.step a).renewalAnswer? i m = w.renewalAnswer? i m := by
  obtain ⟨j, events, hjournal, _⟩ := step_journal w a
  unfold renewalAnswer?
  rw [historyAt_step hg a _ (Nat.le_of_lt hm), step_agents, hjournal,
    List.getElem?_append_left hm]
  obtain ⟨e, he⟩ : ∃ e, w.journal[m]? = some e := ⟨_, List.getElem?_eq_getElem hm⟩
  rw [he]
  by_cases hattempt : e.attempt = i
  · have hi : i < w.attempts.length := hattempt ▸ hg.placed e (List.mem_of_getElem? he)
    rw [agentOf_step hi a]
  · simp [hattempt]

/-- Lines of other attempts and lines that are no renewals have no answer. -/
theorem renewalAnswer?_eq_none {w : World α} {i m : Nat}
    (h : ∀ e, w.journal[m]? = some e → e.attempt = i → e.event.renewCall? = none) :
    w.renewalAnswer? i m = none := by
  unfold renewalAnswer?
  cases he : w.journal[m]? with
  | none => rfl
  | some e =>
      by_cases hattempt : e.attempt = i
      · simp [hattempt, h e he hattempt]
      · simp [hattempt]

/-- The answers grow at their end. -/
theorem renewalAnswers_step {w : World α} (hg : w.Grounded) (a : Action α) (i : Nat)
    {events : List Event} {j : Nat}
    (hjournal : (w.step a).journal = w.journal ++ events.map (fun e => ⟨w.now, j, e⟩)) :
    (w.step a).renewalAnswers i = w.renewalAnswers i ++
      (List.range events.length).filterMap
        (fun k => (w.step a).renewalAnswer? i (w.journal.length + k)) := by
  unfold renewalAnswers
  rw [hjournal, List.length_append, List.length_map, List.range_add, List.filterMap_append,
    List.filterMap_map]
  congr 1
  refine List.filterMap_congr fun m hm => ?_
  exact renewalAnswer?_step hg a i (List.mem_range.mp hm)

theorem answersAmong_eq_nil {answer : Answer Unit} {events : List Event}
    (h : ∀ e ∈ events, e.renewCall? = none) : answersAmong answer events = [] := by
  refine List.filterMap_eq_nil_iff.mpr fun e he => ?_
  rw [h e he]
  rfl

/-- The one answer that an effect can add. -/
theorem renewalAnswers_of_effect {w : World α} (hg : w.Grounded) {i : Nat} {c : Context}
    {a : Action α} {agent : Agent} {events : List Event} {due : Prop}
    (hc : w.context? i = some c) (hagent : w.agents[c.agent]? = some agent)
    (hlog : (w.step a).log i = w.log i ++ events.map (w.now, ·))
    (hfirst : RenewsFirst c.session.id due events) :
    (w.step a).renewalAnswers i = w.renewalAnswers i ++
      answersAmong (agent.renew (w.history c.agent) c.session.id) events := by
  obtain ⟨j, entered, hjournal, _⟩ := step_journal w a
  have hagentOf := (hg.context_agent hc).1
  have hlines : ∀ k, (w.step a).journal[w.journal.length + k]? =
      entered[k]?.map fun e => ⟨w.now, j, e⟩ := by
    intro k
    rw [hjournal, List.getElem?_append_right (by omega), Nat.add_sub_cancel_left,
      List.getElem?_map]
  -- what was entered is what the effect left, or belongs to another attempt
  have hentered : events = if j = i then entered else [] := by
    have henter : (w.step a).log i = (w.enter j entered).log i := log_congr hjournal i
    have hinjective : Function.Injective fun e : Event => (w.now, e) :=
      fun _ _ h => (Prod.mk.inj h).2
    rw [log_enter, hlog, List.append_cancel_left_eq] at henter
    by_cases hji : j = i
    · rw [if_pos hji] at henter ⊢
      exact List.map_injective_iff.mpr hinjective henter
    · rw [if_neg hji] at henter ⊢
      exact List.map_eq_nil_iff.mp henter
  rw [renewalAnswers_step hg a i hjournal]
  congr 1
  by_cases hji : j = i
  · rw [if_pos hji] at hentered
    subst hji hentered
    cases hfirst with
    | none hnone =>
        rw [answersAmong_eq_nil hnone]
        refine List.filterMap_eq_nil_iff.mpr fun k _ => renewalAnswer?_eq_none ?_
        intro e he _
        rw [hlines, Option.map_eq_some_iff] at he
        obtain ⟨x, hx, rfl⟩ := he
        exact hnone x (List.mem_of_getElem? hx)
    -- the renewal is the first line, so the agent is asked with the history as it was
    | @first e rest _ hcall hrest =>
        have hhead : (w.step a).renewalAnswer? j (w.journal.length + 0) =
            some (agent.renew (w.history c.agent) c.session.id) := by
          unfold renewalAnswer?
          rw [hlines, Nat.add_zero, historyAt_step hg a _ (Nat.le_refl _), historyAt_length,
            step_agents, agentOf_step (lt_of_context? hc), hagentOf]
          simp [hcall, hagent]
        have htail : ∀ k ∈ (List.range rest.length).map Nat.succ,
            (w.step a).renewalAnswer? j (w.journal.length + k) = none := by
          intro k hk
          obtain ⟨m, _, rfl⟩ := List.mem_map.mp hk
          refine renewalAnswer?_eq_none fun x hx _ => ?_
          rw [hlines, Option.map_eq_some_iff] at hx
          obtain ⟨y, hy, rfl⟩ := hx
          exact hrest y (List.mem_of_getElem? hy)
        rw [List.length_cons, List.range_succ_eq_map, List.filterMap_cons, hhead,
          List.filterMap_eq_nil_iff.mpr htail]
        unfold answersAmong
        rw [List.filterMap_cons, hcall]
        exact congrArg _ (answersAmong_eq_nil hrest).symm
  · rw [if_neg hji] at hentered
    subst hentered
    refine List.filterMap_eq_nil_iff.mpr fun k _ => renewalAnswer?_eq_none ?_
    intro e he hattempt
    rw [hlines, Option.map_eq_some_iff] at he
    obtain ⟨x, _, rfl⟩ := he
    exact absurd hattempt hji

/-- An effect adds a renewal to the log and the answer to it to the answers, or neither. -/
theorem renewalTimes_of_effect {w : World α} {i : Nat} {a : Action α} {id : String}
    {due : Prop} {events : List Event} {answer : Answer Unit}
    (hlog : (w.step a).log i = w.log i ++ events.map (w.now, ·))
    (hanswers : (w.step a).renewalAnswers i =
      w.renewalAnswers i ++ answersAmong answer events)
    (hfirst : RenewsFirst id due events) :
    ((w.step a).log i).renewalTimes = (w.log i).renewalTimes ∧
        (w.step a).renewalAnswers i = w.renewalAnswers i ∨
      due ∧ ((w.step a).log i).renewalTimes = (w.log i).renewalTimes ++ [w.now] ∧
        (w.step a).renewalAnswers i = w.renewalAnswers i ++ [answer] := by
  have hnone : ∀ {events : List Event}, (∀ e ∈ events, e.renewCall? = none) →
      Log.renewalTimes (events.map (w.now, ·)) = [] := by
    intro events h
    refine List.filterMap_eq_nil_iff.mpr fun x hx => ?_
    obtain ⟨e, he, rfl⟩ := List.mem_map.mp hx
    rw [h e he]
    rfl
  rw [hlog, hanswers, Log.renewalTimes_append]
  cases hfirst with
  | none h =>
      rw [hnone h, answersAmong_eq_nil h]
      exact .inl ⟨List.append_nil _, List.append_nil _⟩
  | @first e rest hdue hcall hrest =>
      refine .inr ⟨hdue, ?_, ?_⟩
      · unfold Log.renewalTimes at hnone ⊢
        rw [List.map_cons, List.filterMap_cons, hcall, hnone hrest]
        rfl
      · unfold answersAmong
        rw [List.filterMap_cons, hcall]
        exact congrArg _ (congrArg _ (answersAmong_eq_nil hrest))

/-- Until renewals are issued there are no answers. -/
theorem renewalAnswers_eq_nil {w : World α} {i : Nat}
    (h : ∀ e ∈ w.log i, e.2.isOpening = true) : w.renewalAnswers i = [] := by
  refine List.filterMap_eq_nil_iff.mpr fun m _ => renewalAnswer?_eq_none fun e he hi => ?_
  have hmem : (e.time, e.event) ∈ w.log i := by
    refine List.mem_map.mpr ⟨e, List.mem_filter.mpr ⟨List.mem_of_getElem? he, ?_⟩, rfl⟩
    simpa using hi
  exact Event.renewCall?_of_isOpening (h _ hmem)

end World

end Tenure.Lifecycle
