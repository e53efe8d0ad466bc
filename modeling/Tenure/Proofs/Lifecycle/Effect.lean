import Tenure.Proofs.Lifecycle.Journal

/-!
# What one action does to one context

A world holds many contexts, and an action concerns at most one of them.
`World.Effect` lists what an action can do to the context of a given attempt,
together with the events that it leaves in the log of that attempt; it is the
only place where `World.step` is taken apart.

* `World.step_effect` — a context stays where it is, and every action has one of
  the effects;
* `World.step_change` — an action changes at most one attempt, and what it enters in
  the journal is of that attempt.
-/

namespace Tenure.Lifecycle

variable {α : Type}

namespace World

/-! ## Contexts after putting something back -/

theorem context?_eq_some_iff {w : World α} {i : Nat} {c : Context} :
    w.context? i = some c ↔ ∃ a, w.attempts[i]? = some a ∧ a.stage = .begun c := by
  unfold context?
  rw [Option.bind_eq_some_iff]
  refine exists_congr fun a => and_congr_right fun _ => ?_
  unfold Attempt.context?
  cases a.stage <;> simp

theorem lt_of_context? {w : World α} {i : Nat} {c : Context} (h : w.context? i = some c) :
    i < w.attempts.length := by
  obtain ⟨a, ha, _⟩ := context?_eq_some_iff.mp h
  exact (List.getElem?_eq_some_iff.mp ha).1

theorem context?_setContext_self {w : World α} {i : Nat} {c : Context} (c' : Context)
    (h : w.context? i = some c) : (w.setContext i c').context? i = some c' := by
  obtain ⟨a, ha, _⟩ := context?_eq_some_iff.mp h
  refine context?_eq_some_iff.mpr ⟨a.setContext c', ?_, rfl⟩
  simp [setContext, ha]

theorem context?_setContext_of_ne (w : World α) {i j : Nat} (c' : Context) (h : j ≠ i) :
    (w.setContext j c').context? i = w.context? i := by
  unfold context? setContext
  simp [h]

theorem context?_setAttempt_of_ne (w : World α) {i j : Nat} (a : Attempt) (h : j ≠ i) :
    (w.setAttempt j a).context? i = w.context? i := by
  unfold context? setAttempt
  rw [List.getElem?_set_ne h]

theorem log_enter_self (w : World α) (i : Nat) (events : List Event) :
    (w.enter i events).log i = w.log i ++ events.map (w.now, ·) := by
  rw [log_enter, if_pos rfl]

theorem log_enter_of_ne (w : World α) {i j : Nat} (events : List Event) (h : j ≠ i) :
    (w.enter j events).log i = w.log i := by
  rw [log_enter, if_neg h, List.append_nil]

/-! ## Effects -/

/-- A turn of the attempt `b`. -/
def openingTurn (w : World α) (b : Attempt) (agent : Agent) : Attempt × List Event :=
  b.poll (w.scopes.isCancelled b.parent) w.now w.turns (agent.create (w.history b.agent))

/-- What an action does to the context `c` of attempt `i`: the context after it, and the
events that it leaves. -/
inductive Effect (w : World α) (i : Nat) (c : Context) :
    Action α → Context → List Event → Prop
  | renewal {agent : Agent} (hagent : w.agents[c.agent]? = some agent) :
      Effect w i c (.poll (.renewal i)) (c.pollRenewal (w.surroundings agent c)).1
        (c.pollRenewal (w.surroundings agent c)).2
  | destruction {agent : Agent} (hagent : w.agents[c.agent]? = some agent) :
      Effect w i c (.poll (.destruction i)) (c.pollDestruction (w.surroundings agent c)).1
        (c.pollDestruction (w.surroundings agent c)).2
  | caller {j : Nat} {k : Caller α} (hk : w.callers[j]? = some k) (hi : k.attempt = i) :
      Effect w i c (.poll (.caller j)) (k.poll w.now c).2.1 (k.poll w.now c).2.2
  | abandon {j : Nat} {k : Caller α} (hk : w.callers[j]? = some k) (hi : k.attempt = i) :
      Effect w i c (.abandon j) (k.abandon c).2.1 (k.abandon c).2.2
  | drop : Effect w i c (.drop i) c.drop [.contextDropped]
  | handOutToken : Effect w i c (.handOutToken i) c.handOutToken []
  | cancelToken (k : Nat) : Effect w i c (.cancelToken i k) (c.cancelToken k) []
  | none (a : Action α) : Effect w i c a c []

/-- What every step of a run keeps: the agents, which scopes are cancelled, and that what
is entered in the journal is counted. -/
structure Kept (w w' : World α) : Prop where
  agents : w'.agents = w.agents
  scopes : ∀ i, w.scopes.isCancelled i = true → w'.scopes.isCancelled i = true
  metrics : w.MetricsKept → w'.MetricsKept

theorem Kept.rfl {w w' : World α} (hagents : w'.agents = w.agents)
    (hscopes : w'.scopes = w.scopes) (hmetrics : w'.metrics = w.metrics)
    (hjournal : w'.journal = w.journal) : Kept w w' :=
  ⟨hagents, fun i h => by rw [hscopes, h], fun h => by rw [MetricsKept, hmetrics, hjournal, h]⟩

theorem Kept.enter {w w' : World α} (i : Nat) (events : List Event)
    (hagents : w'.agents = w.agents) (hscopes : w'.scopes = w.scopes)
    (hmetrics : w'.metrics = (w.enter i events).metrics)
    (hjournal : w'.journal = (w.enter i events).journal) : Kept w w' :=
  ⟨hagents, fun i h => by rw [hscopes, h], fun h => h.enter i events hmetrics hjournal⟩

/-- What an action changes in the attempts and in the journal: nothing, or one attempt.
The clock moves only where nothing else does. -/
inductive Change (w : World α) (a : Action α) (w' : World α) : Prop
  | none (hkept : Kept w w') (hnow : w'.now = w.now) (hattempts : w'.attempts = w.attempts)
      (hjournal : w'.journal = w.journal)
  | passed (t : Nat) (hw' : w' = { w with now := t }) (hquiet : w.isQuiet = true)
      (hlater : w.now < t) (hwakes : ∀ t' ∈ w.wakes, t ≤ t')
  | made (hkept : Kept w w') (hnow : w'.now = w.now) (b : Attempt) (hfresh : b.stage = .fresh)
      (hagent : b.agent < w.agents.length) (hattempts : w'.attempts = w.attempts ++ [b])
      (hjournal : w'.journal = w.journal)
  | opening (hkept : Kept w w') (hnow : w'.now = w.now) (j : Nat) (b : Attempt)
      (agent : Agent) (hturn : a = .poll (.opening j) ∧ w.agents[b.agent]? = some agent)
      (hb : w.attempts[j]? = some b)
      (hattempts : w'.attempts = (w.setAttempt j (w.openingTurn b agent).1).attempts)
      (hjournal : w'.journal = (w.enter j (w.openingTurn b agent).2).journal)
  | context (hkept : Kept w w') (hnow : w'.now = w.now) (j : Nat) (c c' : Context)
      (events : List Event) (hc : w.context? j = some c)
      (heffect : w.Effect j c a c' events)
      (hattempts : w'.attempts = (w.setContext j c').attempts)
      (hjournal : w'.journal = (w.enter j events).journal)

theorem Change.unchanged (w : World α) (a : Action α) : Change w a w :=
  .none (.rfl rfl rfl rfl rfl) rfl rfl rfl

theorem pollAttempt_change (w : World α) (j n : Nat) :
    Change w (.poll (.opening j)) { w.pollAttempt j with turns := n } := by
  unfold pollAttempt
  split
  · exact .none (.rfl rfl rfl rfl rfl) rfl rfl rfl
  · rename_i b hb
    split
    · exact .none (.rfl rfl rfl rfl rfl) rfl rfl rfl
    · rename_i agent hagent
      exact .opening (.enter j _ rfl rfl rfl rfl) rfl j b agent ⟨rfl, hagent⟩ hb rfl rfl

theorem pollContext_change (w : World α) (j n : Nat) (a : Action α)
    (turn : Surroundings → Context → Context × List Event)
    (heffect : ∀ c agent, w.agents[c.agent]? = some agent →
      w.Effect j c a (turn (w.surroundings agent c) c).1 (turn (w.surroundings agent c) c).2) :
    Change w a { w.pollContext j turn with turns := n } := by
  unfold pollContext
  split
  · exact .none (.rfl rfl rfl rfl rfl) rfl rfl rfl
  · rename_i c hc
    split
    · exact .none (.rfl rfl rfl rfl rfl) rfl rfl rfl
    · rename_i agent hagent
      exact .context (.enter j _ rfl rfl rfl rfl) rfl j c _ _ hc (heffect c agent hagent) rfl rfl

theorem pollCaller_change (w : World α) (j n : Nat) :
    Change w (.poll (.caller j)) { w.pollCaller j with turns := n } := by
  unfold pollCaller
  split
  · exact .none (.rfl rfl rfl rfl rfl) rfl rfl rfl
  · rename_i k hk
    split
    · exact .none (.rfl rfl rfl rfl rfl) rfl rfl rfl
    · rename_i c hc
      exact .context (.enter k.attempt _ rfl rfl rfl rfl) rfl k.attempt c _ _ hc (.caller hk rfl)
        rfl rfl

theorem abandonCaller_change (w : World α) (j : Nat) :
    Change w (.abandon j) (w.abandonCaller j) := by
  unfold abandonCaller
  split
  · exact .unchanged w _
  · rename_i k hk
    split
    · exact .unchanged w _
    · rename_i c hc
      exact .context (.enter k.attempt _ rfl rfl rfl rfl) rfl k.attempt c _ _ hc (.abandon hk rfl)
        rfl rfl

theorem updateContext_change (w : World α) (j : Nat) (a : Action α) (f : Context → Context)
    (events : List Event) (heffect : ∀ c, w.Effect j c a (f c) events) :
    Change w a (w.updateContext j f events) := by
  unfold updateContext
  split
  · exact .unchanged w a
  · rename_i c hc
    exact .context (.enter j _ rfl rfl rfl rfl) rfl j c _ _ hc (heffect c) rfl rfl

/-- Cancelling a scope leaves the scopes cancelled that were. -/
theorem isCancelled_cancel (s : Scopes) (i j : Nat) (h : s.isCancelled j = true) :
    (s.cancel i).isCancelled j = true := by
  induction j using Nat.strongRecOn with
  | ind j ih =>
      rw [Scopes.isCancelled, Bool.or_eq_true] at h
      rcases h with hcut | habove
      · refine Scopes.isCancelled_of_cut ?_
        simp only [Scopes.cancel, List.contains_cons, hcut, Bool.or_true]
      -- the scopes above are the same ones, so the induction goes up the chain
      · split at habove
        · rename_i k hk
          have hsame : (s.cancel i).above? j = some k := hk
          exact Scopes.isCancelled_of_above hsame (ih k (Scopes.above?_lt hk) habove)
        · exact absurd habove (by simp)

/-- An action changes at most one attempt, and enters events of that attempt only. -/
theorem step_change (w : World α) (a : Action α) : Change w a (w.step a) := by
  cases a with
  | begin agent parent session =>
      show Change w _ (if _ then _ else _)
      split
      · rename_i hagent
        exact .made (.rfl rfl rfl rfl rfl) rfl _ rfl hagent rfl rfl
      · exact .unchanged w _
  | poll p =>
      cases p with
      | opening j => exact pollAttempt_change w j _
      | renewal j => exact pollContext_change w j _ _ _ fun _ _ h => .renewal h
      | destruction j => exact pollContext_change w j _ _ _ fun _ _ h => .destruction h
      | caller j => exact pollCaller_change w j _
  | call j demand =>
      show Change w _ (if _ then _ else _)
      split
      · exact .none (.rfl rfl rfl rfl rfl) rfl rfl rfl
      · exact .unchanged w _
  | abandon j => exact abandonCaller_change w j
  | drop j => exact updateContext_change w j _ _ _ fun _ => .drop
  | cancelScope j => exact .none ⟨rfl, isCancelled_cancel w.scopes j, id⟩ rfl rfl rfl
  | handOutToken j => exact updateContext_change w j _ _ _ fun _ => .handOutToken
  | cancelToken j k => exact updateContext_change w j _ _ _ fun _ => .cancelToken k
  | advance t =>
      show Change w _ (if _ then _ else _)
      split
      · rename_i h
        simp only [Bool.and_eq_true, decide_eq_true_eq, List.all_eq_true] at h
        exact .passed t rfl h.1.1 h.1.2 h.2
      · exact .unchanged w _

/-! ## One attempt -/

theorem context?_congr {w w' : World α} (h : w'.attempts = w.attempts) (i : Nat) :
    w'.context? i = w.context? i := by
  unfold context?
  rw [h]

theorem log_congr {w w' : World α} (h : w'.journal = w.journal) (i : Nat) :
    w'.log i = w.log i := by
  unfold log
  rw [h]

/-- **One action, one context.** A context stays where it is, and what an action does to
it is one of the effects. -/
theorem step_effect {w : World α} {i : Nat} {c : Context} (h : w.context? i = some c)
    (a : Action α) : ∃ c' events, (w.step a).context? i = some c' ∧
      (w.step a).log i = w.log i ++ events.map (w.now, ·) ∧ w.Effect i c a c' events := by
  have huntouched : ∀ w' : World α, w'.context? i = w.context? i → w'.log i = w.log i →
      ∃ c' events, w'.context? i = some c' ∧
        w'.log i = w.log i ++ events.map (w.now, ·) ∧ w.Effect i c a c' events := by
    intro w' hc hlog
    exact ⟨c, [], by rw [hc, h], by rw [hlog]; simp, .none a⟩
  cases step_change w a with
  | none _ _ ha hj => exact huntouched _ (context?_congr ha i) (log_congr hj i)
  | passed t hw' _ _ _ =>
      rw [hw']
      exact huntouched _ rfl rfl
  | made _ _ b _ _ ha hj =>
      refine huntouched _ ?_ (log_congr hj i)
      unfold context?
      rw [ha, List.getElem?_append_left (lt_of_context? h)]
  | opening _ _ j b agent _ hb ha hj =>
      by_cases hji : j = i
      -- an attempt that has its context has nothing more to open
      · subst hji
        obtain ⟨b', hb', hstage⟩ := context?_eq_some_iff.mp h
        obtain rfl := Option.some.inj (hb'.symm.trans hb)
        have hturn : w.openingTurn b' agent = (b', []) := by
          simp only [openingTurn, Attempt.poll, hstage]
        rw [hturn] at ha hj
        refine huntouched _ ?_ ?_
        · rw [context?_congr ha j]
          unfold context? setAttempt
          rw [List.getElem?_set_self (lt_of_context? h), hb]
        · rw [log_congr hj j, log_enter_self]
          exact List.append_nil _
      · refine huntouched _ ?_ ?_
        · rw [context?_congr ha i, context?_setAttempt_of_ne w _ hji]
        · rw [log_congr hj i, log_enter_of_ne w _ hji]
  | context _ _ j c₀ c' events hc heffect ha hj =>
      by_cases hji : j = i
      · subst hji
        obtain rfl := Option.some.inj (h.symm.trans hc)
        refine ⟨c', events, ?_, ?_, heffect⟩
        · rw [context?_congr ha j, context?_setContext_self c' h]
        · rw [log_congr hj j, log_enter_self]
      · refine huntouched _ ?_ ?_
        · rw [context?_congr ha i, context?_setContext_of_ne w _ hji]
        · rw [log_congr hj i, log_enter_of_ne w _ hji]

end World

end Tenure.Lifecycle
