import Tenure.Proofs.Lifecycle.Answers

/-!
# Invariants of contexts

An invariant speaks about the clock, a context, its log and the answers that its
renewals were given. `Context.Invariant` says what has to be shown for one: that
it holds of a new context, that each move keeps it, and that it survives the
passing of time. `Context.Invariant.holds` then gives it for every context of
every reachable world, so the induction over runs is made here and nowhere else.

* `Context.Passing` — what is known of a context when the clock moves on;
* `World.Reachable.step_context` — a step is time passing or a chain of moves;
* `World.Reachable.keeps` — what moves keep, runs keep;
* `World.Once` — at some moment of a run an action met a state as described.
-/

namespace Tenure.Lifecycle

variable {α : Type}

/-! ## Time passes -/

/-- The clock moves from `now` to `t`: the tasks of the context had nothing to do, and
none of them will before `t`. -/
structure Context.Passing (now t : Nat) (parentCancelled : Bool) (c : Context) : Prop where
  later : now < t
  renewalQuiet : c.renewalReady parentCancelled now = false
  destructionQuiet : c.destructionReady now = false
  renewalWake : ∀ t', c.renewalWake = some t' → t ≤ t'
  destructionWake : ∀ t', c.destructionWake = some t' → t ≤ t'

namespace World

theorem renewal_mem_processes {w : World α} {i : Nat} (hi : i < w.attempts.length) :
    .renewal i ∈ w.processes := by
  refine List.mem_append_left _ (List.mem_flatMap.mpr ⟨i, List.mem_range.mpr hi, ?_⟩)
  simp

theorem destruction_mem_processes {w : World α} {i : Nat} (hi : i < w.attempts.length) :
    .destruction i ∈ w.processes := by
  refine List.mem_append_left _ (List.mem_flatMap.mpr ⟨i, List.mem_range.mpr hi, ?_⟩)
  simp

theorem not_ready_of_quiet {w : World α} (hquiet : w.isQuiet = true) {p : Process}
    (hp : p ∈ w.processes) : w.isReady p = false := by
  have hall := List.all_eq_true.mp hquiet p hp
  simpa using hall

theorem wake_mem_wakes {w : World α} {p : Process} (hp : p ∈ w.processes) {t : Nat}
    (ht : w.wake p = some t) : t ∈ w.wakes := List.mem_filterMap.mpr ⟨p, hp, ht⟩

theorem passing_of_quiet {w : World α} {i : Nat} {c : Context} (hc : w.context? i = some c)
    {t : Nat} (hquiet : w.isQuiet = true) (hlater : w.now < t)
    (hwakes : ∀ t' ∈ w.wakes, t ≤ t') :
    c.Passing w.now t (w.scopes.isCancelled c.parent) := by
  have hrenewal := renewal_mem_processes (lt_of_context? hc)
  have hdestruction := destruction_mem_processes (lt_of_context? hc)
  refine ⟨hlater, ?_, ?_, ?_, ?_⟩
  · have hready := not_ready_of_quiet hquiet hrenewal
    simpa [isReady, hc] using hready
  · have hready := not_ready_of_quiet hquiet hdestruction
    simpa [isReady, hc] using hready
  · intro t' ht'
    exact hwakes t' (wake_mem_wakes hrenewal (by simpa [wake, hc] using ht'))
  · intro t' ht'
    exact hwakes t' (wake_mem_wakes hdestruction (by simpa [wake, hc] using ht'))

/-! ## Steps of a context -/

/-- **The step of a run as a context sees it:** either time passes, or there is a chain of
moves in the surroundings of the moment. -/
theorem Reachable.step_context {w : World α} (hw : w.Reachable) {i : Nat} {c : Context}
    (hc : w.context? i = some c) (a : Action α) :
    (∃ t, w.step a = { w with now := t } ∧
        c.Passing w.now t (w.scopes.isCancelled c.parent)) ∨
      ∃ agent c' events, w.agents[c.agent]? = some agent ∧ (w.step a).now = w.now ∧
        (w.step a).context? i = some c' ∧
        (w.step a).log i = w.log i ++ events.map (w.now, ·) ∧
        (w.step a).renewalAnswers i = w.renewalAnswers i ++
          answersAmong (agent.renew (w.history c.agent) c.session.id) events ∧
        Context.Moves (w.surroundings agent c) (w.actor i a) c events c' := by
  have hg := hw.grounded
  obtain ⟨_, agent, hagent⟩ := hg.context_agent hc
  have hs := hg.signalled i c hc
  have hmoves : (w.step a).now = w.now → ∃ agent c' events,
      w.agents[c.agent]? = some agent ∧ (w.step a).now = w.now ∧
        (w.step a).context? i = some c' ∧
        (w.step a).log i = w.log i ++ events.map (w.now, ·) ∧
        (w.step a).renewalAnswers i = w.renewalAnswers i ++
          answersAmong (agent.renew (w.history c.agent) c.session.id) events ∧
        Context.Moves (w.surroundings agent c) (w.actor i a) c events c' := by
    intro hnow
    obtain ⟨c', events, hc', hlog, heffect⟩ := step_effect hc a
    exact ⟨agent, c', events, hagent, hnow, hc', hlog,
      renewalAnswers_of_effect hg hc hagent hlog (heffect.renewsFirst hs),
      heffect.moves hagent hs⟩
  cases step_change w a with
  | none _ hnow _ _ => exact .inr (hmoves hnow)
  | passed t hw' hquiet hlater hwakes =>
      exact .inl ⟨t, hw', passing_of_quiet hc hquiet hlater hwakes⟩
  | made _ hnow _ _ _ _ _ => exact .inr (hmoves hnow)
  | opening _ hnow _ _ _ _ _ _ _ => exact .inr (hmoves hnow)
  | context _ hnow _ _ _ _ _ _ _ _ => exact .inr (hmoves hnow)

/-- What every move of a context keeps, every step keeps. -/
theorem Reachable.keeps_step {w : World α} (hw : w.Reachable) {i : Nat} {c : Context}
    (hc : w.context? i = some c) {P : Context → Prop}
    (hmove : ∀ {s actor c events c'}, Context.Move s actor c events c' → P c → P c')
    (h : P c) (a : Action α) : ∃ c', (w.step a).context? i = some c' ∧ P c' := by
  rcases hw.step_context hc a with ⟨t, hw', _⟩ | ⟨_, c', _, _, _, hc', _, _, hmoves⟩
  · rw [hw']
    exact ⟨c, hc, h⟩
  · exact ⟨c', hc', hmoves.keeps hmove h⟩

/-- What every move of a context keeps, every run keeps. -/
theorem Reachable.keeps {w : World α} (hw : w.Reachable) {i : Nat} {c : Context}
    (hc : w.context? i = some c) {P : Context → Prop}
    (hmove : ∀ {s actor c events c'}, Context.Move s actor c events c' → P c → P c')
    (h : P c) (more : List (Action α)) : ∃ c', (w.run more).context? i = some c' ∧ P c' := by
  induction more generalizing w c with
  | nil => exact ⟨c, hc, h⟩
  | cons a rest ih =>
      obtain ⟨c', hc', h'⟩ := hw.keeps_step hc hmove h a
      exact ih (hw.step a) hc' h'

/-- What a context is about stays the same in every run. -/
theorem Reachable.frame_run {w : World α} (hw : w.Reachable) {i : Nat} {c c' : Context}
    (hc : w.context? i = some c) {more : List (Action α)}
    (hc' : (w.run more).context? i = some c') :
    c'.session = c.session ∧ c'.agent = c.agent ∧ c'.parent = c.parent ∧
      c'.started = c.started := by
  have hkeeps : ∀ {s actor c₁ events c₂}, Context.Move s actor c₁ events c₂ →
      c₁.session = c.session ∧ c₁.agent = c.agent ∧ c₁.parent = c.parent ∧
        c₁.started = c.started →
      c₂.session = c.session ∧ c₂.agent = c.agent ∧ c₂.parent = c.parent ∧
        c₂.started = c.started := by
    intro _ _ _ _ _ hmove h
    obtain ⟨h₁, h₂, h₃, h₄⟩ := hmove.frame
    exact ⟨h₁.trans h.1, h₂.trans h.2.1, h₃.trans h.2.2.1, h₄.trans h.2.2.2⟩
  obtain ⟨c'', hc'', hsame⟩ := hw.keeps hc hkeeps ⟨rfl, rfl, rfl, rfl⟩ more
  obtain rfl := Option.some.inj (hc'.symm.trans hc'')
  exact hsame

/-- What every step of a reachable world keeps, every run from one keeps. -/
theorem Reachable.run_keeps {w : World α} (hw : w.Reachable) {P : World α → Prop} (h : P w)
    (hstep : ∀ u a, u.Reachable → P u → P (u.step a)) (more : List (Action α)) :
    P (w.run more) := by
  induction more generalizing w with
  | nil => exact h
  | cons a rest ih => exact ih (hw.step a) (hstep w a hw h)

/-- The clock stands still in a step that gives an attempt its context. -/
theorem now_of_appears {w : World α} {i : Nat} {c : Context} {a : Action α}
    (hbefore : w.context? i = none) (h : (w.step a).context? i = some c) :
    (w.step a).now = w.now := by
  cases step_change w a with
  | none _ hnow _ _ => exact hnow
  | passed t hw' _ _ _ =>
      rw [hw'] at h
      exact absurd (hbefore.symm.trans h) (by simp)
  | made _ hnow _ _ _ _ _ => exact hnow
  | opening _ hnow _ _ _ _ _ _ _ => exact hnow
  | context _ hnow _ _ _ _ _ _ _ _ => exact hnow

end World

/-! ## Moments of a run -/

namespace World

/-- At some moment of the run of `actions` from `w`, the state and the action that was
performed on it were as `P` says. -/
def Once (w : World α) (actions : List (Action α)) (P : World α → Action α → Prop) : Prop :=
  ∃ before a after, actions = before ++ a :: after ∧ P (w.run before) a

theorem Once.earlier {w : World α} {actions : List (Action α)}
    {P : World α → Action α → Prop} (h : w.Once actions P) (a : Action α) :
    w.Once (actions ++ [a]) P := by
  obtain ⟨before, b, after, rfl, hb⟩ := h
  exact ⟨before, b, after ++ [a], by simp, hb⟩

theorem Once.last {w : World α} {actions : List (Action α)} {a : Action α}
    {P : World α → Action α → Prop} (h : P (w.run actions) a) : w.Once (actions ++ [a]) P :=
  ⟨actions, a, [], rfl, h⟩

theorem Once.imp {w : World α} {actions : List (Action α)}
    {P Q : World α → Action α → Prop} (h : w.Once actions P) (hPQ : ∀ u a, P u a → Q u a) :
    w.Once actions Q := by
  obtain ⟨before, a, after, hactions, ha⟩ := h
  exact ⟨before, a, after, hactions, hPQ _ _ ha⟩

theorem run_concat (w : World α) (actions : List (Action α)) (a : Action α) :
    w.run (actions ++ [a]) = (w.run actions).step a := run_append w actions [a]

end World

/-! ## Invariants -/

namespace Context

/-- What has to be shown for an invariant of the clock, a context, its log and the answers
to its renewals. -/
structure Invariant (Inv : Nat → Context → Log → List (Answer Unit) → Prop) : Prop where
  /-- It holds of a new context. -/
  start : ∀ (now : Nat) (requested session : Session) (id : String) (agent parent : Nat)
    (log : Log), requested.resolve = .ok session → (∀ e ∈ log, e.2.isOpening = true) →
    Inv now (.start { session with id := id } agent parent now) log []
  /-- Each move keeps it. -/
  move : ∀ (s : Surroundings) (actor : Actor) (c c' : Context) (events : List Event)
    (log : Log) (answers : List (Answer Unit)), Inv s.now c log answers →
    Move s actor c events c' →
    Inv s.now c' (log ++ events.map (s.now, ·))
      (answers ++ World.answersAmong s.renewAnswer events)
  /-- It survives the passing of time. -/
  pass : ∀ (now t : Nat) (parentCancelled : Bool) (c : Context) (log : Log)
    (answers : List (Answer Unit)), Inv now c log answers →
    c.Passing now t parentCancelled → Inv t c log answers

theorem Invariant.moves {Inv : Nat → Context → Log → List (Answer Unit) → Prop}
    (h : Invariant Inv) {s : Surroundings} {actor : Actor} {c c' : Context}
    {events : List Event} (hmoves : Moves s actor c events c') {log : Log}
    {answers : List (Answer Unit)} (hinv : Inv s.now c log answers) :
    Inv s.now c' (log ++ events.map (s.now, ·))
      (answers ++ World.answersAmong s.renewAnswer events) := by
  induction hmoves generalizing log answers with
  | none c => simpa [World.answersAmong] using hinv
  | cons first _ ih =>
      have hnext := ih (h.move s actor _ _ _ log answers hinv first)
      simpa [World.answersAmong, List.filterMap_append] using hnext

/-- **Invariants hold.** What is shown for new contexts, for moves and for the passing of
time holds of every context of every reachable world. -/
theorem Invariant.holds {Inv : Nat → Context → Log → List (Answer Unit) → Prop}
    (h : Invariant Inv) {w : World α} (hw : w.Reachable) {i : Nat} {c : Context}
    (hc : w.context? i = some c) : Inv w.now c (w.log i) (w.renewalAnswers i) := by
  induction hw generalizing c with
  | start agents scopes now => exact absurd hc (by simp [World.untouched, World.context?])
  | @step w a hw ih =>
      cases hbefore : w.context? i with
      | none =>
          rcases World.context?_before hc with ⟨c₀, _, hc₀, _⟩ |
            ⟨_, b, session, id, _, hb, hoffers, rfl, _, _⟩
          · exact absurd (hbefore.symm.trans hc₀) (by simp)
          -- the context is new, and its log has nothing in it but how it came to be
          · have hall := hw.grounded.opening_step hbefore a
            rw [World.now_of_appears hbefore hc, World.renewalAnswers_eq_nil hall]
            exact h.start w.now b.requested session id b.agent b.parent _
              ((hw.grounded.resolved i b hb).of_offers hoffers) hall
      | some c₀ =>
          rcases hw.step_context hbefore a with ⟨t, hw', hpassing⟩ |
            ⟨agent, c', events, _, hnow, hc', hlog, hanswers, hmoves⟩
          · rw [hw'] at hc ⊢
            obtain rfl := Option.some.inj (hbefore.symm.trans hc)
            exact h.pass w.now t _ c₀ _ _ (ih hbefore) hpassing
          · obtain rfl := Option.some.inj (hc.symm.trans hc')
            rw [hnow, hlog, hanswers]
            exact h.moves hmoves (ih hbefore)

end Context

end Tenure.Lifecycle
