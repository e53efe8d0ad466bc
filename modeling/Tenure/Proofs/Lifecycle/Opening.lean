import Tenure.Proofs.Lifecycle.Move

/-!
# How a context comes into being

An attempt takes turns of its own until it is decided. This module says what such
a turn can lead to (`Attempt.Turn`), and what a world looks like to an attempt
that has no context yet.

* `Attempt.poll_turn` — the next stage of an attempt: refused, broken down,
  creating, or begun with `Context.start` at the time of the turn;
* `World.step_attempt`, `World.attempt_before` — an attempt keeps its agent, its
  scope and its configuration, and what its next stage can be;
* `World.step_opens` — until there is a context, the log has opening events only.
-/

namespace Tenure.Lifecycle

variable {α : Type}

namespace Attempt

/-- The resolved session that the attempt is about to ask for, or has asked for. -/
def Offers (a : Attempt) (session : Session) : Prop :=
  match a.stage with
  | .fresh => a.requested.resolve = .ok session
  | .creating s _ => s = session
  | _ => False

/-- What a turn of an attempt leads to: the next stage, and the events that it leaves. -/
inductive Turn (a : Attempt) (now : Nat) : Stage → List Event → Prop
  | stay : Turn a now a.stage []
  | refused (e : SessionError) {events : List Event}
      (hopening : ∀ e ∈ events, e.isOpening = true) : Turn a now (.refused e) events
  | brokenDown : Turn a now .brokenDown []
  | creating {session : Session} (call : Pending String) {events : List Event}
      (hoffers : a.Offers session) (hopening : ∀ e ∈ events, e.isOpening = true) :
      Turn a now (.creating session call) events
  | begun {session : Session} (id : String) {events : List Event}
      (hoffers : a.Offers session) (hopening : ∀ e ∈ events, e.isOpening = true) :
      Turn a now (.begun (.start { session with id := id } a.agent a.parent now)) events

/-- Further opening events in front. -/
theorem Turn.after {a : Attempt} {now : Nat} {stage : Stage} {events : List Event}
    (h : Turn a now stage events) {first : Event} (hfirst : first.isOpening = true)
    (hundecided : stage ≠ a.stage) (hsound : stage ≠ .brokenDown) :
    Turn a now stage (first :: events) := by
  have hcons : ∀ {events : List Event}, (∀ e ∈ events, e.isOpening = true) →
      ∀ e ∈ first :: events, e.isOpening = true := by
    intro events hall e he
    rcases List.mem_cons.mp he with rfl | he
    · exact hfirst
    · exact hall e he
  cases h with
  | stay => exact absurd rfl hundecided
  | refused e hopening => exact .refused e (hcons hopening)
  | brokenDown => exact absurd rfl hsound
  | creating call hoffers hopening => exact .creating call hoffers (hcons hopening)
  | begun id hoffers hopening => exact .begun id hoffers (hcons hopening)

/-- Taking note of a create call: the attempt goes on creating, is refused or begins. -/
theorem pollCreating_turn (a : Attempt) {session : Session} (hoffers : a.Offers session)
    (parentCancelled : Bool) (now : Nat) (call : Pending String) :
    ∃ stage events, a.pollCreating parentCancelled now session call =
        ({ a with stage := stage }, events) ∧
      (stage = .creating session call ∧ events = [] ∨
        stage ≠ .fresh ∧ (∀ s c, stage ≠ .creating s c) ∧ stage ≠ .brokenDown ∧
          a.Turn now stage events) := by
  unfold pollCreating
  cases parentCancelled with
  | true =>
      exact ⟨.refused .parentCancelled, _, rfl, .inr ⟨by simp, by simp, by simp,
        .refused _ (by simp [Event.isOpening])⟩⟩
  | false =>
      rw [if_neg Bool.false_ne_true]
      cases call.standing now with
      | waiting => exact ⟨_, _, rfl, .inl ⟨rfl, rfl⟩⟩
      | answered outcome =>
          cases outcome with
          | ok id =>
              exact ⟨.begun _, _, rfl, .inr ⟨by simp, by simp, by simp,
                .begun id hoffers (by simp [Event.isOpening])⟩⟩
          | error cause =>
              exact ⟨.refused (.create cause), _, rfl, .inr ⟨by simp, by simp, by simp,
                .refused _ (by simp [Event.isOpening])⟩⟩
      | timedOut =>
          exact ⟨.refused (.create _), _, rfl, .inr ⟨by simp, by simp, by simp,
            .refused _ (by simp [Event.isOpening])⟩⟩

/-- A turn of an attempt. -/
theorem poll_turn (a : Attempt) (parentCancelled : Bool) (now number : Nat)
    (createAnswer : SessionConfig → Answer String) :
    ∃ stage events, a.poll parentCancelled now number createAnswer =
      ({ a with stage := stage }, events) ∧ a.Turn now stage events := by
  unfold poll
  cases hstage : a.stage with
  | fresh =>
      dsimp only
      cases parentCancelled with
      | true => exact ⟨.refused .parentCancelled, _, rfl, .refused _ (by simp)⟩
      | false =>
          rw [if_neg Bool.false_ne_true]
          cases hresolve : a.requested.resolve with
          | error fault =>
              dsimp only
              cases fault.rejection with
              | some e => exact ⟨.refused e, _, rfl, .refused _ (by simp)⟩
              | none => exact ⟨.brokenDown, _, rfl, .brokenDown⟩
          | ok session =>
              dsimp only
              have hoffers : a.Offers session := by
                unfold Offers
                rw [hstage]
                exact hresolve
              cases session.wire? with
              | none => exact ⟨.brokenDown, _, rfl, .brokenDown⟩
              | some config =>
                  dsimp only
                  obtain ⟨stage, events, hpoll, hnext⟩ := pollCreating_turn a hoffers false now
                    (.issue number now (createAnswer config) session.effectiveLockDelay)
                  rw [hpoll]
                  refine ⟨stage, _, rfl, ?_⟩
                  rcases hnext with ⟨rfl, rfl⟩ | ⟨hfresh, _, hsound, hturn⟩
                  · exact .creating _ hoffers (by simp [Event.isOpening])
                  · exact hturn.after rfl (by rw [hstage]; exact hfresh) hsound
  | creating session call =>
      have hoffers : a.Offers session := by
        unfold Offers
        rw [hstage]
      obtain ⟨stage, events, hpoll, hnext⟩ :=
        pollCreating_turn a hoffers parentCancelled now call
      refine ⟨stage, events, hpoll, ?_⟩
      rcases hnext with ⟨rfl, rfl⟩ | ⟨_, _, _, hturn⟩
      · exact .creating call hoffers (by simp)
      · exact hturn
  | refused e => exact ⟨a.stage, [], rfl, .stay⟩
  | brokenDown => exact ⟨a.stage, [], rfl, .stay⟩
  | begun c => exact ⟨a.stage, [], rfl, .stay⟩

/-- The session of an attempt is the one that its configuration resolves to, with the
identifier that the agent has assigned. -/
def Resolved (a : Attempt) : Prop :=
  match a.stage with
  | .creating session _ => a.requested.resolve = .ok session
  | .begun c => ∃ session, a.requested.resolve = .ok session ∧
      c.session = { session with id := c.session.id } ∧ c.agent = a.agent ∧
      c.parent = a.parent
  | _ => True

theorem Resolved.of_offers {a : Attempt} (h : a.Resolved) {session : Session}
    (hoffers : a.Offers session) : a.requested.resolve = .ok session := by
  unfold Offers at hoffers
  unfold Resolved at h
  cases hstage : a.stage with
  | fresh => rwa [hstage] at hoffers
  | creating s call =>
      rw [hstage] at hoffers h
      exact hoffers ▸ h
  | refused e => rw [hstage] at hoffers; exact hoffers.elim
  | brokenDown => rw [hstage] at hoffers; exact hoffers.elim
  | begun c => rw [hstage] at hoffers; exact hoffers.elim

/-- Nothing that happens to a context makes its session another one. -/
theorem Resolved.of_frame {a : Attempt} (h : a.Resolved) {c c' : Context}
    (hstage : a.stage = .begun c) (hframe : c'.session = c.session ∧ c'.agent = c.agent ∧
      c'.parent = c.parent ∧ c'.started = c.started) :
    ({ a with stage := .begun c' } : Attempt).Resolved := by
  unfold Resolved at h
  rw [hstage] at h
  obtain ⟨session, hresolve, hsession, hagent, hparent⟩ := h
  obtain ⟨h₁, h₂, h₃, _⟩ := hframe
  refine ⟨session, hresolve, ?_, h₂.trans hagent, h₃.trans hparent⟩
  rw [h₁]
  exact hsession

theorem Turn.resolved {a : Attempt} (h : a.Resolved) {now : Nat} {stage : Stage}
    {events : List Event} (hturn : a.Turn now stage events) :
    ({ a with stage := stage } : Attempt).Resolved := by
  cases hturn with
  | stay => exact h
  | refused e _ => exact True.intro
  | brokenDown => exact True.intro
  | creating call hoffers _ => exact h.of_offers hoffers
  | begun id hoffers _ => exact ⟨_, h.of_offers hoffers, rfl, rfl, rfl⟩

end Attempt

namespace World

/-! ## An attempt in a run -/

theorem openingTurn_turn (w : World α) (b : Attempt) (agent : Agent) :
    ∃ stage events, w.openingTurn b agent = ({ b with stage := stage }, events) ∧
      b.Turn w.now stage events := Attempt.poll_turn b _ w.now w.turns _

/-- The next stage of the attempt `b` with index `i`. -/
inductive NextStage (w : World α) (i : Nat) (a : Action α) (b : Attempt) : Stage → Prop
  | same : NextStage w i a b b.stage
  | turn {stage : Stage} {events : List Event} (hturn : b.Turn w.now stage events) :
      NextStage w i a b stage
  | context {c c' : Context} {events : List Event} (hstage : b.stage = .begun c)
      (heffect : w.Effect i c a c' events) : NextStage w i a b (.begun c')

/-- An attempt keeps its agent, its scope and its configuration. -/
theorem step_attempt {w : World α} {i : Nat} {b : Attempt} (h : w.attempts[i]? = some b)
    (a : Action α) : ∃ stage, (w.step a).attempts[i]? = some { b with stage := stage } ∧
      w.NextStage i a b stage := by
  cases step_change w a with
  | none _ _ ha _ => exact ⟨b.stage, by rw [ha, h], .same⟩
  | passed t hw' _ _ _ => exact ⟨b.stage, by rw [hw']; exact h, .same⟩
  | made _ _ _ _ _ ha _ =>
      refine ⟨b.stage, ?_, .same⟩
      rw [ha, List.getElem?_append_left (List.getElem?_eq_some_iff.mp h).1, h]
  | opening _ _ j b' agent _ hb ha _ =>
      by_cases hji : j = i
      · subst hji
        obtain rfl := Option.some.inj (h.symm.trans hb)
        obtain ⟨stage, _, hturn, hnext⟩ := openingTurn_turn w b agent
        refine ⟨stage, ?_, .turn hnext⟩
        rw [ha, hturn]
        exact List.getElem?_set_self (List.getElem?_eq_some_iff.mp h).1
      · refine ⟨b.stage, ?_, .same⟩
        rw [ha]
        exact (List.getElem?_set_ne hji).trans h
  | context _ _ j c c' events hc heffect ha _ =>
      rw [ha]
      unfold setContext
      rw [List.getElem?_modify, h]
      by_cases hji : j = i
      · subst hji
        obtain ⟨b', hb', hstage⟩ := context?_eq_some_iff.mp hc
        obtain rfl := Option.some.inj (h.symm.trans hb')
        exact ⟨.begun c', by simp [Attempt.setContext], .context hstage heffect⟩
      · exact ⟨b.stage, by simp [hji], .same⟩

/-- The attempts of a run stay, and there can be more of them. -/
theorem step_length (w : World α) (a : Action α) :
    w.attempts.length ≤ (w.step a).attempts.length := by
  rcases hlast : w.attempts.length with _ | n
  · exact Nat.zero_le _
  · obtain ⟨_, hstays, _⟩ := step_attempt
      (List.getElem?_eq_getElem (l := w.attempts) (i := n) (by omega)) a
    exact (List.getElem?_eq_some_iff.mp hstays).1

/-- An attempt that is there after a step was there before it, or has just been made. -/
theorem attempt_before {w : World α} {i : Nat} {b' : Attempt} {a : Action α}
    (h : (w.step a).attempts[i]? = some b') :
    (∃ b stage, w.attempts[i]? = some b ∧ b' = { b with stage := stage } ∧
        w.NextStage i a b stage) ∨
      b'.stage = .fresh ∧ b'.agent < w.agents.length := by
  cases hbefore : w.attempts[i]? with
  | some b =>
      obtain ⟨stage, hstays, hnext⟩ := step_attempt hbefore a
      exact .inl ⟨b, stage, rfl, Option.some.inj (h.symm.trans hstays), hnext⟩
  | none =>
      have hi : ¬i < w.attempts.length := by
        rw [List.getElem?_eq_none_iff] at hbefore
        omega
      -- only a new attempt can take a place that was empty
      cases step_change w a with
      | none _ _ ha _ =>
          rw [ha, hbefore] at h
          exact absurd h (by simp)
      | passed t hw' _ _ _ =>
          rw [hw'] at h
          exact absurd (hbefore.symm.trans h) (by simp)
      | made _ _ b hfresh hagent ha _ =>
          rw [ha, List.getElem?_append_right (by omega), List.getElem?_singleton] at h
          split at h
          · obtain rfl := Option.some.inj h
            exact .inr ⟨hfresh, hagent⟩
          · exact absurd h (by simp)
      | opening _ _ j b agent _ hb ha _ =>
          have hlt := (List.getElem?_eq_some_iff.mp h).1
          rw [ha] at hlt
          exact absurd (by simpa [setAttempt] using hlt) hi
      | context _ _ j c c' events hc _ ha _ =>
          have hlt := (List.getElem?_eq_some_iff.mp h).1
          rw [ha] at hlt
          exact absurd (by simpa [setContext] using hlt) hi

/-- **Opening.** Until an attempt has a context its log grows by opening events only, and
the context that it gets is a new one. -/
theorem step_opens {w : World α} {i : Nat} (h : w.context? i = none) (a : Action α) :
    ∃ events : List Event, (w.step a).log i = w.log i ++ events.map (w.now, ·) ∧
      (∀ e ∈ events, e.isOpening = true) ∧
      ((w.step a).context? i = none ∨
        ∃ b session id, w.attempts[i]? = some b ∧ b.Offers session ∧
          (w.step a).context? i =
            some (.start { session with id := id } b.agent b.parent w.now)) := by
  have huntouched : ∀ w' : World α, w'.context? i = w.context? i → w'.log i = w.log i →
      ∃ events : List Event, w'.log i = w.log i ++ events.map (w.now, ·) ∧
        (∀ e ∈ events, e.isOpening = true) ∧
        (w'.context? i = none ∨ ∃ b session id, w.attempts[i]? = some b ∧
          b.Offers session ∧ w'.context? i =
            some (.start { session with id := id } b.agent b.parent w.now)) := by
    intro w' hc hlog
    exact ⟨[], by rw [hlog]; simp, by simp, .inl (by rw [hc, h])⟩
  cases step_change w a with
  | none _ _ ha hj => exact huntouched _ (context?_congr ha i) (log_congr hj i)
  | passed t hw' _ _ _ =>
      rw [hw']
      exact huntouched _ rfl rfl
  | made _ _ b hfresh _ ha hj =>
      refine ⟨[], by rw [log_congr hj]; simp, by simp, .inl ?_⟩
      unfold context? at h ⊢
      rw [ha, List.getElem?_append]
      split
      · exact h
      · rcases hi : i - w.attempts.length with _ | n
        · simp [Attempt.context?, hfresh]
        · simp
  | opening _ _ j b agent _ hb ha hj =>
      by_cases hji : j = i
      · subst hji
        obtain ⟨stage, events, hpoll, hturn⟩ := openingTurn_turn w b agent
        rw [hpoll] at ha hj
        have hcontext : (w.step a).context? j =
            ({ b with stage := stage } : Attempt).context? := by
          rw [context?_congr ha j]
          unfold context? setAttempt
          rw [List.getElem?_set_self (List.getElem?_eq_some_iff.mp hb).1]
          rfl
        have hlog : (w.step a).log j = w.log j ++ events.map (w.now, ·) := by
          rw [log_congr hj j, log_enter_self]
        have hbefore : b.context? = none := by
          unfold context? at h
          rw [hb] at h
          exact h
        -- of the stages that a turn can lead to, only one has a context
        cases hturn with
        | stay => exact ⟨[], hlog, by simp, .inl (hcontext.trans hbefore)⟩
        | refused e hopening => exact ⟨events, hlog, hopening, .inl hcontext⟩
        | brokenDown => exact ⟨[], hlog, by simp, .inl hcontext⟩
        | creating call _ hopening => exact ⟨events, hlog, hopening, .inl hcontext⟩
        | begun id hoffers hopening =>
            exact ⟨events, hlog, hopening, .inr ⟨b, _, id, hb, hoffers, hcontext⟩⟩
      · refine huntouched _ ?_ ?_
        · rw [context?_congr ha i, context?_setAttempt_of_ne w _ hji]
        · rw [log_congr hj i, log_enter_of_ne w _ hji]
  | context _ _ j c₀ c' events hc _ ha hj =>
      have hji : j ≠ i := by
        rintro rfl
        rw [h] at hc
        exact absurd hc (by simp)
      refine huntouched _ ?_ ?_
      · rw [context?_congr ha i, context?_setContext_of_ne w _ hji]
      · rw [log_congr hj i, log_enter_of_ne w _ hji]

end World

end Tenure.Lifecycle
