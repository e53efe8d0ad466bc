import Tenure.Proofs.Lifecycle.Counters
import Tenure.Proofs.Lifecycle.Cancelling

/-!
# What comes of an attempt

An attempt that is not refused at once asks the agent for a session and waits. There is a
verdict in the first turn in which the parent scope is cancelled, the agent has answered
or the time is up; no later turn changes it, and whatever happens to the context after
that creates no session.

* `CreateRequest`, `CreateRequest.verdict` — what the agent is asked, and what comes of it;
* `World.Asked` — an attempt that waits for the answer;
* `World.Concluded` — an attempt about which there is a verdict: it has left behind what
  the verdict says, and nothing else;
* `World.Reachable.asked_run` — from the first turn on it is the one or the other.
-/

namespace Tenure.Lifecycle

variable {α : Type}

/-! ## Reading the log -/

/-- The session to create, if the call asks for that. -/
def AgentCall.created? : AgentCall → Option SessionConfig
  | .create config => some config
  | _ => none

namespace Event

/-- The events that a session is created with, or not. -/
def isBeginning : Event → Bool
  | .issued _ (.create _) => true
  | .created _ => true
  | .createFailed .. => true
  | _ => false

theorem created?_of_not_isBeginning {e : Event} (h : e.isBeginning = false) {call : AgentCall}
    (hcall : e.agentCall? = some call) : call.created? = none := by
  cases call with
  | create config =>
      unfold agentCall? at hcall
      split at hcall
      · obtain rfl := Option.some.inj hcall
        exact absurd h (by simp [isBeginning])
      · exact absurd hcall (by simp)
      · exact absurd hcall (by simp)
      · exact absurd hcall (by simp)
  | _ => rfl

theorem isBeginning_of_isWork {e : Event} (h : e.isWork = true) : e.isBeginning = false := by
  cases e <;> first | rfl | exact absurd h (by simp [isWork])

end Event

namespace Log

/-- Everything that the agent was asked. -/
def agentCalls (log : Log) : List AgentCall := log.filterMap (·.2.agentCall?)

/-- The sessions that the agent was asked to create. -/
def createCalls (log : Log) : List SessionConfig := log.agentCalls.filterMap (·.created?)

theorem createCalls_beside (log : Log) {more : Log} (h : ∀ x ∈ more, x.2.isBeginning = false) :
    (log ++ more : Log).createCalls = log.createCalls := by
  have hnone : more.agentCalls.filterMap (·.created?) = [] := by
    refine List.filterMap_eq_nil_iff.mpr fun call hcall => ?_
    obtain ⟨x, hx, hasked⟩ := List.mem_filterMap.mp hcall
    exact Event.created?_of_not_isBeginning (h x hx) hasked
  unfold createCalls
  show List.filterMap _ (List.filterMap _ (log ++ more)) = _
  rw [List.filterMap_append, List.filterMap_append]
  exact (congrArg _ hnone).trans (List.append_nil _)

/-- How many sessions were created and how often the creation failed. -/
def creations (log : Log) : Nat × Nat := (log.metrics.createsOk, log.metrics.createsError)

theorem creations_record (m : Metrics) {e : Event} (h : e.isBeginning = false) :
    (m.record e).createsOk = m.createsOk ∧ (m.record e).createsError = m.createsError := by
  cases e with
  | created session => exact absurd h (by simp [Event.isBeginning])
  | createFailed name cause => exact absurd h (by simp [Event.isBeginning])
  | ending reason => cases reason <;> exact ⟨rfl, rfl⟩
  | _ => exact ⟨rfl, rfl⟩

theorem creations_beside (log : Log) {more : Log} (h : ∀ x ∈ more, x.2.isBeginning = false) :
    (log ++ more : Log).creations = log.creations := by
  induction more generalizing log with
  | nil => rw [List.append_nil]
  | cons x rest ih =>
      have hrest := ih (log ++ [x]) fun y hy => h y (List.mem_cons_of_mem _ hy)
      rw [List.append_assoc] at hrest
      refine hrest.trans ?_
      obtain ⟨hok, herror⟩ := creations_record log.metrics (h x List.mem_cons_self)
      unfold creations
      rw [metrics_append]
      exact Prod.ext hok herror

end Log

namespace Context

/-- What happens to a context creates no session. -/
theorem Move.not_beginning {s : Surroundings} {actor : Actor} {c c' : Context}
    {events : List Event} (h : Move s actor c events c') :
    ∀ e ∈ events, e.isBeginning = false := by
  have hone : ∀ {e : Event}, e.isBeginning = false → ∀ x ∈ [e], x.isBeginning = false := by simp
  cases h with
  | work _ hwork => exact fun e he => Event.isBeginning_of_isWork (hwork e he)
  | missed _ _ hfailed _ => cases hfailed <;> simp [Event.isBeginning]
  | expired _ _ hfailed _ => cases hfailed <;> simp [Event.isBeginning]
  | destroyOver _ hover => cases hover <;> simp [Event.isBeginning]
  | renewed _ _ _ _ => simp [Event.isBeginning]
  | leave _ _ => simp
  | tornDown _ _ => simp
  | handOutToken => simp
  | cancelToken _ => simp
  | _ => exact hone rfl

theorem Moves.not_beginning {s : Surroundings} {actor : Actor} {c c' : Context}
    {events : List Event} (h : Moves s actor c events c') :
    ∀ e ∈ events, e.isBeginning = false :=
  h.forall_events fun hmove => hmove.not_beginning

end Context

/-! ## The verdict -/

/-- What comes of asking the agent for a session: the identifier that it has assigned, or
why there is no session. -/
def Attempt.verdict (parentCancelled : Bool) (answer : Answer String) (limit : Duration) :
    Except SessionError String :=
  if parentCancelled then .error .parentCancelled else (answer.heard limit).mapError .create

/-- What an attempt has come to, once it is decided. -/
def Attempt.result? (a : Attempt) : Option (Except SessionError Context) :=
  match a.stage with
  | .refused e => some (.error e)
  | .begun c => some (.ok c)
  | _ => none

/-- What an attempt that came to nothing counts for. -/
def Metrics.ofFailure : SessionError → Metrics
  | .create _ => { createsError := 1 }
  | _ => {}

/-- A call to create a session, and the answer that the agent gives to it. -/
structure CreateRequest where
  number : Nat
  since : Nat
  session : Session
  config : SessionConfig
  answer : Answer String

namespace CreateRequest

def limit (r : CreateRequest) : Duration := r.session.effectiveLockDelay

def call (r : CreateRequest) : Pending String := .issue r.number r.since r.answer r.limit

def verdict (r : CreateRequest) (parentCancelled : Bool) : Except SessionError String :=
  Attempt.verdict parentCancelled r.answer r.limit

/-- Whether there is a verdict at the time `now`. -/
def isDecided (r : CreateRequest) (parentCancelled : Bool) (now : Nat) : Bool :=
  parentCancelled || r.call.isSettled now

theorem wake_call (r : CreateRequest) : r.call.wake = r.since + r.answer.heardAfter r.limit :=
  Pending.wake_issue_eq

end CreateRequest

namespace Attempt

/-- The stage that a verdict leads to. -/
def stageOf (a : Attempt) (session : Session) (now : Nat) : Except SessionError String → Stage
  | .ok id => .begun (.start { session with id := id } a.agent a.parent now)
  | .error e => .refused e

/-- What a verdict counts for. -/
def countOf : Except SessionError String → Metrics
  | .ok _ => { active := 1, createsOk := 1 }
  | .error e => .ofFailure e

/-- The events that an attempt leaves when there is a verdict. -/
structure Closes (verdict : Except SessionError String) (events : List Event) : Prop where
  count : events.foldl Metrics.record {} = countOf verdict
  calls : ∀ e ∈ events, e.agentCall? = none

/-- Taking note of the call while there is no verdict changes nothing. -/
theorem pollCreating_undecided (a : Attempt) {r : CreateRequest} {parentCancelled : Bool}
    {now : Nat} (h : r.isDecided parentCancelled now = false) :
    a.pollCreating parentCancelled now r.session r.call =
      ({ a with stage := .creating r.session r.call }, []) := by
  unfold CreateRequest.isDecided Pending.isSettled at h
  obtain ⟨hparent, hsettled⟩ := Bool.or_eq_false_iff.mp h
  obtain ⟨hready, hdue⟩ := Bool.or_eq_false_iff.mp hsettled
  unfold pollCreating Pending.standing
  rw [hparent, hready, hdue]
  rfl

/-- Taking note of the call once there is a verdict. -/
theorem pollCreating_decided (a : Attempt) {r : CreateRequest} {parentCancelled : Bool} {now : Nat}
    (hearly : now ≤ r.call.wake) (h : r.isDecided parentCancelled now = true) :
    ∃ events, a.pollCreating parentCancelled now r.session r.call =
        ({ a with stage := a.stageOf r.session now (r.verdict parentCancelled) }, events) ∧
      Closes (r.verdict parentCancelled) events := by
  unfold pollCreating
  cases parentCancelled with
  | true => exact ⟨_, rfl, rfl, by simp [Event.agentCall?]⟩
  | false =>
      have hverdict : r.verdict false = (r.answer.heard r.limit).mapError .create := rfl
      rw [if_neg Bool.false_ne_true, hverdict]
      cases hstanding : r.call.standing now with
      | waiting => exact absurd hstanding (Pending.standing_of_settled h)
      | answered outcome =>
          obtain ⟨hready, houtcome⟩ := Pending.ready_of_answered hstanding
          have hheard : r.answer.heard r.limit = outcome :=
            (Pending.heard_of_ready hearly hready).trans houtcome
          rw [hheard]
          cases outcome with
          | ok id => exact ⟨_, rfl, rfl, by simp [Event.agentCall?]⟩
          | error cause => exact ⟨_, rfl, rfl, by simp [Event.agentCall?]⟩
      | timedOut =>
          obtain ⟨hready, hdue⟩ := Pending.due_of_timedOut hstanding
          rw [Pending.heard_of_due hready hdue]
          exact ⟨_, rfl, rfl, by simp [Event.agentCall?]⟩

end Attempt

namespace World

variable {w : World α} {i : Nat} {b : Attempt}

/-! ## Turns of an attempt -/

theorem opening_mem_processes (hi : i < w.attempts.length) : .opening i ∈ w.processes := by
  refine List.mem_append_left _ (List.mem_flatMap.mpr ⟨i, List.mem_range.mpr hi, ?_⟩)
  simp

theorem step_opening (hb : w.attempts[i]? = some b) {agent : Agent}
    (hagent : w.agents[b.agent]? = some agent) :
    (w.step (.poll (.opening i))).attempts[i]? = some (w.openingTurn b agent).1 ∧
      (w.step (.poll (.opening i))).log i =
        w.log i ++ (w.openingTurn b agent).2.map (w.now, ·) ∧
      (w.step (.poll (.opening i))).now = w.now := by
  have hstep : w.pollAttempt i =
      (w.setAttempt i (w.openingTurn b agent).1).enter i (w.openingTurn b agent).2 := by
    unfold pollAttempt
    rw [hb]
    dsimp only
    rw [hagent]
    rfl
  refine ⟨?_, ?_, ?_⟩
  · show (w.pollAttempt i).attempts[i]? = _
    rw [hstep]
    exact List.getElem?_set_self (List.getElem?_eq_some_iff.mp hb).1
  · show (w.pollAttempt i).log i = _
    rw [hstep]
    exact log_enter_self ..
  · show (w.pollAttempt i).now = _
    rw [hstep]
    rfl

/-- An attempt without a context is concerned by its own turns only. -/
theorem opening_of_ne (hb : w.attempts[i]? = some b) (hnone : b.context? = none)
    {a : Action α} (ha : a ≠ .poll (.opening i)) :
    (w.step a).attempts[i]? = some b ∧ (w.step a).log i = w.log i := by
  cases step_change w a with
  | none _ _ hattempts hjournal => exact ⟨by rw [hattempts, hb], log_congr hjournal i⟩
  | passed t hw' _ _ _ =>
      rw [hw']
      exact ⟨hb, rfl⟩
  | made _ _ _ _ _ hattempts hjournal =>
      refine ⟨?_, log_congr hjournal i⟩
      rw [hattempts, List.getElem?_append_left (List.getElem?_eq_some_iff.mp hb).1, hb]
  | opening _ _ j _ _ hturn _ hattempts hjournal =>
      have hji : j ≠ i := fun h => ha (h ▸ hturn.1)
      refine ⟨?_, ?_⟩
      · rw [hattempts]
        exact (List.getElem?_set_ne hji).trans hb
      · rw [log_congr hjournal i, log_enter_of_ne w _ hji]
  | context _ _ j c _ _ hc _ hattempts hjournal =>
      have hji : j ≠ i := by
        rintro rfl
        obtain ⟨b', hb', hstage⟩ := context?_eq_some_iff.mp hc
        obtain rfl := Option.some.inj (hb.symm.trans hb')
        unfold Attempt.context? at hnone
        rw [hstage] at hnone
        exact absurd hnone (by simp)
      refine ⟨?_, ?_⟩
      · rw [hattempts]
        unfold setContext
        rw [List.getElem?_modify, hb]
        simp [hji]
      · rw [log_congr hjournal i, log_enter_of_ne w _ hji]

/-- An attempt that has been made holds time up until it has had a turn. -/
theorem fresh_step (hb : w.attempts[i]? = some b) (hfresh : b.stage = .fresh) {a : Action α}
    (ha : a ≠ .poll (.opening i)) : (w.step a).attempts[i]? = some b ∧
      (w.step a).log i = w.log i ∧ (w.step a).now = w.now := by
  have hnone : b.context? = none := by
    unfold Attempt.context?
    rw [hfresh]
  obtain ⟨hstays, hlog⟩ := opening_of_ne hb hnone ha
  refine ⟨hstays, hlog, ?_⟩
  by_contra hlater
  have hquiet : w.isQuiet = true := by
    apply quiet_of_later (a := a)
    have hle := now_le_step w a
    omega
  have hready : w.isReady (.opening i) = true := by
    simp [isReady, hb, Attempt.isReady, hfresh]
  have hprocess := opening_mem_processes (List.getElem?_eq_some_iff.mp hb).1
  exact absurd (hready.symm.trans (not_ready_of_quiet hquiet hprocess)) (by simp)

theorem fresh_run (hb : w.attempts[i]? = some b) (hfresh : b.stage = .fresh)
    {before : List (Action α)} (hfirst : .poll (.opening i) ∉ before) :
    (w.run before).attempts[i]? = some b ∧ (w.run before).log i = w.log i ∧
      (w.run before).now = w.now := by
  induction before generalizing w with
  | nil => exact ⟨hb, rfl, rfl⟩
  | cons a rest ih =>
      obtain ⟨hne, hrest⟩ := not_or.mp (List.mem_cons.not.mp hfirst)
      obtain ⟨hstays, hlog, hnow⟩ := fresh_step hb hfresh (Ne.symm hne)
      obtain ⟨hstays', hlog', hnow'⟩ := ih hstays hrest
      exact ⟨hstays', hlog'.trans hlog, hnow'.trans hnow⟩

/-- What was refused stays refused, and leaves no further trace. -/
theorem Reachable.refused_run (hw : w.Reachable) (hb : w.attempts[i]? = some b)
    {e : SessionError} (hstage : b.stage = .refused e) (more : List (Action α)) :
    (w.run more).attempts[i]? = some b ∧ (w.run more).log i = w.log i := by
  induction more generalizing w with
  | nil => exact ⟨hb, rfl⟩
  | cons a rest ih =>
      have hstep : (w.step a).attempts[i]? = some b ∧ (w.step a).log i = w.log i := by
        by_cases ha : a = .poll (.opening i)
        · subst ha
          obtain ⟨agent, hagent⟩ : ∃ agent, w.agents[b.agent]? = some agent :=
            ⟨_, List.getElem?_eq_getElem (hw.grounded.served i b hb)⟩
          obtain ⟨hturn, hlog, _⟩ := step_opening hb hagent
          have hidle : w.openingTurn b agent = (b, []) := by
            simp only [openingTurn, Attempt.poll, hstage]
          rw [hidle] at hturn hlog
          exact ⟨hturn, hlog.trans (List.append_nil _)⟩
        · apply opening_of_ne hb _ ha
          unfold Attempt.context?
          rw [hstage]
      obtain ⟨hstays, hlog⟩ := ih (hw.step a) hstep.1
      exact ⟨hstays, hlog.trans hstep.2⟩

/-! ## Waiting for the agent -/

/-- Attempt `i` has put its request to the agent and waits for the answer; its time is not
yet up. -/
structure Asked (w : World α) (i : Nat) (b : Attempt) (r : CreateRequest) : Prop where
  attempt : w.attempts[i]? = some { b with stage := .creating r.session r.call }
  log : w.log i = [(r.since, .issued r.number (.create r.config))]
  early : w.now ≤ r.call.wake

/-- There is a verdict on the request of attempt `i` since the time `time`, and the attempt
has left behind what it counts for: with a session there is a context, without one the
agent has been asked for nothing else. -/
inductive Concluded (w : World α) (i : Nat) (b : Attempt) (r : CreateRequest) (time : Nat) :
    Except SessionError String → Prop
  | refused {e : SessionError} (hattempt : w.attempts[i]? = some { b with stage := .refused e })
      (hcalls : (w.log i).agentCalls = [.create r.config])
      (hcount : (w.log i).metrics = .ofFailure e) : Concluded w i b r time (.error e)
  | begun {id : String} {c : Context}
      (hattempt : w.attempts[i]? = some { b with stage := .begun c })
      (hsession : c.session = { r.session with id := id }) (hstarted : c.started = time)
      (hcalls : (w.log i).createCalls = [r.config])
      (hcount : (w.log i).creations = (1, 0)) : Concluded w i b r time (.ok id)

variable {r : CreateRequest}

/-- The turn in which there is a verdict; the log says what has been asked. -/
theorem concluded_of_turn {v : World α} {time : Nat} {verdict : Except SessionError String}
    {events : List Event} (hturn : v.attempts[i]? =
      some { b with stage := b.stageOf r.session time verdict })
    (hlog : v.log i =
      (r.since, .issued r.number (.create r.config)) :: events.map (time, ·))
    (hcloses : Attempt.Closes verdict events) : v.Concluded i b r time verdict := by
  have hmetrics : (v.log i).metrics = Attempt.countOf verdict := by
    rw [hlog, ← hcloses.count]
    exact List.foldl_map ..
  have hcalls : (v.log i).agentCalls = [.create r.config] := by
    have hnone : ∀ x ∈ events.map (time, ·), x.2.agentCall? = none :=
      List.forall_mem_map.mpr hcloses.calls
    rw [hlog]
    exact congrArg (AgentCall.create r.config :: ·) (List.filterMap_eq_nil_iff.mpr hnone)
  cases verdict with
  | error e => exact .refused hturn hcalls hmetrics
  | ok id =>
      refine .begun hturn rfl rfl ?_ ?_
      · unfold Log.createCalls
        rw [hcalls]
        rfl
      · unfold Log.creations
        rw [hmetrics]
        rfl

/-- What has been concluded is not undone. -/
theorem Concluded.step {time : Nat} {verdict : Except SessionError String}
    (h : w.Concluded i b r time verdict) (hw : w.Reachable) (a : Action α) :
    (w.step a).Concluded i b r time verdict := by
  cases h with
  | refused hattempt hcalls hcount =>
      obtain ⟨hstays, hlog⟩ := hw.refused_run hattempt rfl [a]
      have hsame : (w.step a).log i = w.log i := hlog
      refine .refused hstays ?_ ?_
      · rw [hsame]
        exact hcalls
      · rw [hsame]
        exact hcount
  | begun hattempt hsession hstarted hcalls hcount =>
      have hcontext := context?_eq_some_iff.mpr ⟨_, hattempt, rfl⟩
      rcases hw.step_context hcontext a with ⟨t, hw', _⟩ |
        ⟨_, c', events, _, _, hc', hlog, _, hmoves⟩
      · rw [hw']
        exact .begun hattempt hsession hstarted hcalls hcount
      · have hattempt' : (w.step a).attempts[i]? = some { b with stage := .begun c' } := by
          obtain ⟨stage, hstays, _⟩ := step_attempt hattempt a
          obtain ⟨b', hb', hstage⟩ := context?_eq_some_iff.mp hc'
          obtain rfl := Option.some.inj (hstays.symm.trans hb')
          obtain rfl : stage = .begun c' := hstage
          exact hstays
        have hmore : ∀ x ∈ events.map (w.now, ·), x.2.isBeginning = false :=
          List.forall_mem_map.mpr hmoves.not_beginning
        obtain ⟨hsame, _, _, hsame'⟩ := hmoves.frame
        refine .begun hattempt' (hsame.trans hsession) (hsame'.trans hstarted) ?_ ?_
        · rw [hlog, Log.createCalls_beside _ hmore]
          exact hcalls
        · rw [hlog, Log.creations_beside _ hmore]
          exact hcount

/-- The action is a turn of attempt `i` in which there is a verdict on its request. -/
structure Decides (w : World α) (i : Nat) (b : Attempt) (r : CreateRequest) (a : Action α) :
    Prop where
  turn : a = .poll (.opening i)
  early : w.now ≤ r.call.wake
  decided : r.isDecided (w.scopes.isCancelled b.parent) w.now = true

/-- A turn that takes note of the call leaves the attempt waiting, or there is a verdict. -/
theorem asked_or_concluded {v : World α} (hearly : w.now ≤ r.call.wake) (hnow : v.now = w.now)
    (hturn : v.attempts[i]? = some (b.pollCreating (w.scopes.isCancelled b.parent) w.now
      r.session r.call).1)
    (hlog : v.log i = (r.since, .issued r.number (.create r.config)) ::
      (b.pollCreating (w.scopes.isCancelled b.parent) w.now r.session r.call).2.map (w.now, ·)) :
    v.Asked i b r ∨ w.Decides i b r (.poll (.opening i)) ∧
      v.Concluded i b r w.now (r.verdict (w.scopes.isCancelled b.parent)) := by
  cases hdecided : r.isDecided (w.scopes.isCancelled b.parent) w.now with
  | false =>
      rw [b.pollCreating_undecided hdecided] at hturn hlog
      exact .inl ⟨hturn, hlog, by rw [hnow]; exact hearly⟩
  | true =>
      obtain ⟨events, hpoll, hcloses⟩ := b.pollCreating_decided hearly hdecided
      rw [hpoll] at hturn hlog
      exact .inr ⟨⟨rfl, hearly, hdecided⟩, concluded_of_turn hturn hlog hcloses⟩

theorem Asked.step (h : w.Asked i b r) (hw : w.Reachable) (a : Action α) :
    (w.step a).Asked i b r ∨ w.Decides i b r a ∧
      (w.step a).Concluded i b r w.now (r.verdict (w.scopes.isCancelled b.parent)) := by
  by_cases ha : a = .poll (.opening i)
  · subst ha
    obtain ⟨agent, hagent⟩ : ∃ agent, w.agents[b.agent]? = some agent :=
      ⟨_, List.getElem?_eq_getElem (hw.grounded.served i _ h.attempt)⟩
    obtain ⟨hturn, hlog, hnow⟩ := step_opening h.attempt hagent
    rw [h.log] at hlog
    exact asked_or_concluded h.early hnow hturn hlog
  · obtain ⟨hstays, hlog⟩ := opening_of_ne h.attempt rfl ha
    refine .inl ⟨hstays, hlog.trans h.log, ?_⟩
    have hwake : w.wake (.opening i) = some r.call.wake := by
      simp [wake, h.attempt, Attempt.wake]
    have hprocess := opening_mem_processes (List.getElem?_eq_some_iff.mp h.attempt).1
    cases step_change w a with
    | passed t hw' _ _ hwakes =>
        rw [hw']
        exact hwakes _ (wake_mem_wakes hprocess hwake)
    | none _ hnow _ _ => rw [hnow]; exact h.early
    | made _ hnow _ _ _ _ _ => rw [hnow]; exact h.early
    | opening _ hnow _ _ _ _ _ _ _ => rw [hnow]; exact h.early
    | context _ hnow _ _ _ _ _ _ _ _ => rw [hnow]; exact h.early

/-- **The first turn** of an attempt whose scope is not cancelled and whose configuration
resolves: it asks the agent. -/
theorem asked_of_fresh (hb : w.attempts[i]? = some b) (hfresh : b.stage = .fresh)
    (hlog : w.log i = []) {agent : Agent} (hagent : w.agents[b.agent]? = some agent)
    (hparent : w.scopes.isCancelled b.parent = false) {session : Session}
    (hresolve : b.requested.resolve = .ok session) {config : SessionConfig}
    (hwire : session.wire? = some config)
    (hr : r = ⟨w.turns, w.now, session, config, agent.create (w.history b.agent) config⟩) :
    (w.step (.poll (.opening i))).Asked i b r ∨ w.Decides i b r (.poll (.opening i)) ∧
      (w.step (.poll (.opening i))).Concluded i b r w.now
        (r.verdict (w.scopes.isCancelled b.parent)) := by
  obtain ⟨hturn, hlog', hnow⟩ := step_opening hb hagent
  have hpoll : w.openingTurn b agent =
      ((b.pollCreating false w.now r.session r.call).1,
        .issued r.number (.create r.config) ::
          (b.pollCreating false w.now r.session r.call).2) := by
    subst hr
    simp only [openingTurn, Attempt.poll, hfresh, hparent, hresolve, hwire]
    rfl
  have hsince : r.since = w.now := by rw [hr]
  rw [hpoll] at hturn hlog'
  rw [hlog] at hlog'
  apply asked_or_concluded _ hnow
  · rw [hparent]
    exact hturn
  · rw [hparent, hsince]
    exact hlog'
  · unfold CreateRequest.call
    rw [hsince]
    exact Pending.le_wake_issue ..

/-- Sooner or later in a run there is a verdict, and until then the attempt waits. -/
theorem Reachable.asked_run (hw : w.Reachable) (hb : w.attempts[i]? = some b)
    (hfresh : b.stage = .fresh) (hlog : w.log i = []) {agent : Agent}
    (hagent : w.agents[b.agent]? = some agent)
    (hparent : w.scopes.isCancelled b.parent = false) {session : Session}
    (hresolve : b.requested.resolve = .ok session) {config : SessionConfig}
    (hwire : session.wire? = some config)
    (hr : r = ⟨w.turns, w.now, session, config, agent.create (w.history b.agent) config⟩)
    (after : List (Action α)) :
    (w.run (.poll (.opening i) :: after)).Asked i b r ∨
      w.Once (.poll (.opening i) :: after) fun m a => m.Decides i b r a ∧
        (w.run (.poll (.opening i) :: after)).Concluded i b r m.now
          (r.verdict (m.scopes.isCancelled b.parent)) := by
  induction after using List.reverseRecOn with
  | nil =>
      refine (asked_of_fresh hb hfresh hlog hagent hparent hresolve hwire hr).imp_right fun h => ?_
      exact ⟨[], _, [], rfl, h⟩
  | append_singleton after a ih =>
      have hu := hw.run (.poll (.opening i) :: after)
      rw [← List.cons_append, run_concat]
      rcases ih with hasked | hdecided
      · exact (hasked.step hu a).imp_right fun h => .last h
      · exact .inr ((hdecided.imp fun m b h => ⟨h.1, h.2.step hu a⟩).earlier a)

end World

end Tenure.Lifecycle
