import Tenure.Lifecycle.World

/-!
# What the journal says about one attempt

The journal of a run interleaves the events of all attempts. This module takes
it apart again: the **log** of an attempt is its events with their times, and
the properties of a context are read off its log.

* `endings`, `destroyCalls` — how often the context ended and what the agent was
  asked to destroy;
* `renewalTimes`, `renewalsInFlight`, `lastRenewal` — when renewals were issued,
  which are still open, and when the last one that succeeded was issued;
* `World.renewalAnswers` — what the agent has answered to the renewals, each
  answer given the calls that went before it.

Entering events appends to the log of one attempt and leaves the others alone
(`World.log_enter`), so each of these grows at its end only.
-/

namespace Tenure.Lifecycle

variable {α : Type}

/-! ## Reading events -/

namespace Event

/-- The reason, if the event is the end of a context. -/
def ending? : Event → Option SessionError
  | .ending e => some e
  | _ => none

/-- The session that the agent was asked to destroy, if the event is such a call. -/
def destroyCall? : Event → Option String
  | .issued _ (.destroy id) => some id
  | _ => none

/-- The session that the agent was asked to renew, if the event is such a call. -/
def renewCall? : Event → Option String
  | .issued _ (.renew id) => some id
  | _ => none

/-- The events that an attempt leaves before it has a context, or when it gets one. -/
def isOpening : Event → Bool
  | .issued _ (.create _) => true
  | .answered .. => true
  | .abandoned _ => true
  | .created _ => true
  | .createFailed .. => true
  | _ => false

/-- The steps of work, under a context or beside it. -/
def isWork : Event → Bool
  | .worked _ => true
  | .performed _ => true
  | _ => false

theorem renewCall?_of_isOpening {e : Event} (h : e.isOpening = true) :
    e.renewCall? = none := by
  cases e with
  | issued n call => cases call <;> first | rfl | exact absurd h (by simp [isOpening])
  | _ => rfl

theorem renewCall?_of_isWork {e : Event} (h : e.isWork = true) : e.renewCall? = none := by
  cases e with
  | issued n call => exact absurd h (by simp [isWork])
  | _ => rfl

end Event

/-! ## Logs -/

/-- The events of an attempt with their times, in order. -/
abbrev Log := List (Nat × Event)

namespace Log

/-- The ends of the context. -/
def endings (log : Log) : List SessionError := log.filterMap (·.2.ending?)

/-- The sessions that the agent was asked to destroy. -/
def destroyCalls (log : Log) : List String := log.filterMap (·.2.destroyCall?)

/-- When renewals were issued. -/
def renewalTimes (log : Log) : List Nat := log.filterMap fun e => e.2.renewCall?.map fun _ => e.1

/-- The open calls after one more event; `calls` were open before it. -/
def noteOpen (calls : List Nat) (e : Nat × Event) : List Nat :=
  match e.2 with
  | .issued n (.renew _) => n :: calls
  | .answered n _ => calls.erase n
  | .abandoned n => calls.erase n
  | _ => calls

/-- The renewals that have been issued and neither answered nor given up. -/
def renewalsInFlight (log : Log) : List Nat := log.foldl noteOpen []

/-- When the last renewal was issued, and when the last one that succeeded was. -/
structure Marks where
  issued : Option Nat := none
  succeeded : Option Nat := none

/-- The marks after one more event. -/
def Marks.note (m : Marks) (e : Nat × Event) : Marks :=
  match e.2 with
  | .issued _ (.renew _) => { m with issued := some e.1 }
  | .renewed => { m with succeeded := m.issued }
  | _ => m

/-- The marks that a log leaves. -/
def marks (log : Log) : Marks := log.foldl Marks.note {}

/-- When the last renewal that succeeded was issued. -/
def lastRenewal (log : Log) : Option Nat := log.marks.succeeded

/-- What the events of a log add to the metrics. -/
def metrics (log : Log) : Metrics := log.foldl (fun m e => m.record e.2) {}

/-! ### Logs grow at their end -/

@[simp] theorem endings_append (log more : Log) :
    (log ++ more : Log).endings = log.endings ++ more.endings := List.filterMap_append ..

@[simp] theorem destroyCalls_append (log more : Log) :
    (log ++ more : Log).destroyCalls = log.destroyCalls ++ more.destroyCalls :=
  List.filterMap_append ..

@[simp] theorem renewalTimes_append (log more : Log) :
    (log ++ more : Log).renewalTimes = log.renewalTimes ++ more.renewalTimes :=
  List.filterMap_append ..

theorem renewalsInFlight_append (log more : Log) :
    (log ++ more : Log).renewalsInFlight = more.foldl noteOpen log.renewalsInFlight :=
  List.foldl_append ..

theorem marks_append (log more : Log) :
    (log ++ more : Log).marks = more.foldl Marks.note log.marks := List.foldl_append ..

theorem metrics_append (log more : Log) :
    (log ++ more : Log).metrics = more.foldl (fun m e => m.record e.2) log.metrics :=
  List.foldl_append ..

end Log

/-! ## The log of an attempt -/

namespace World

/-- The events of an attempt with their times, in order. -/
def log (w : World α) (i : Nat) : Log :=
  (w.journal.filter (·.attempt == i)).map fun e => (e.time, e.event)

theorem eventsOf_eq (w : World α) (i : Nat) : w.eventsOf i = (w.log i).map (·.2) := by
  simp [eventsOf, log, Function.comp_def]

/-- What an agent has been asked when only the first `m` lines of the journal were there. -/
def historyAt (w : World α) (agent m : Nat) : List AgentCall :=
  ({ w with journal := w.journal.take m } : World α).history agent

/-- The answer of the agent to the renewal in line `m` of the journal, if that line is
one of an attempt's renewals. -/
def renewalAnswer? (w : World α) (i m : Nat) : Option (Answer Unit) := do
  let e ← w.journal[m]?
  if e.attempt = i then
    let id ← e.event.renewCall?
    let agent ← w.agents[w.agentOf i]?
    return agent.renew (w.historyAt (w.agentOf i) m) id
  else none

/-- What the agent has answered to the renewals of an attempt, each answer given the
calls that went before it. -/
def renewalAnswers (w : World α) (i : Nat) : List (Answer Unit) :=
  (List.range w.journal.length).filterMap (w.renewalAnswer? i)

/-- Events of an attempt go to the end of its own log. -/
theorem log_enter (w : World α) (j : Nat) (events : List Event) (i : Nat) :
    (w.enter j events).log i = w.log i ++ if j = i then events.map (w.now, ·) else [] := by
  unfold log enter
  rw [List.filter_append, List.map_append]
  congr 1
  split
  · rename_i h
    have hall : ∀ e ∈ events.map (fun e => (⟨w.now, j, e⟩ : Entry)), (e.attempt == i) = true := by
      intro e he
      obtain ⟨_, _, rfl⟩ := List.mem_map.mp he
      simpa using h
    rw [List.filter_eq_self.mpr hall, List.map_map]
    rfl
  · rename_i h
    have hnone : ∀ e ∈ events.map (fun e => (⟨w.now, j, e⟩ : Entry)), ¬(e.attempt == i) = true := by
      intro e he
      obtain ⟨_, _, rfl⟩ := List.mem_map.mp he
      simpa using h
    rw [List.filter_eq_nil_iff.mpr hnone]
    rfl

/-! ## Metrics -/

/-- What events count for. -/
def countEvents (events : List Event) : Metrics := events.foldl Metrics.record {}

/-- The metrics are what the journal counts for. -/
def MetricsKept (w : World α) : Prop := w.metrics = countEvents (w.journal.map (·.event))

/-- Entering events counts them. -/
theorem MetricsKept.enter {w w' : World α} (h : w.MetricsKept) (i : Nat) (events : List Event)
    (hmetrics : w'.metrics = (w.enter i events).metrics)
    (hjournal : w'.journal = (w.enter i events).journal) : w'.MetricsKept := by
  unfold MetricsKept countEvents World.enter at *
  rw [hmetrics, hjournal, List.map_append, List.foldl_append, List.map_map, ← h]
  simp [Function.comp_def]

/-! ## Reachable worlds -/

/-- A world in which nothing has been begun. -/
def untouched (agents : List Agent) (scopes : Scopes) (now : Nat) : World α :=
  { now, agents, scopes }

/-- The worlds that a run can reach. -/
inductive Reachable : World α → Prop
  | start (agents : List Agent) (scopes : Scopes) (now : Nat) :
      Reachable (untouched agents scopes now)
  | step {w : World α} (a : Action α) : Reachable w → Reachable (w.step a)

theorem Reachable.run {w : World α} (h : w.Reachable) (actions : List (Action α)) :
    (w.run actions).Reachable := by
  induction actions generalizing w with
  | nil => exact h
  | cons a rest ih => exact ih (h.step a)

theorem reachable_run (agents : List Agent) (scopes : Scopes) (now : Nat)
    (actions : List (Action α)) : ((untouched agents scopes now).run actions).Reachable :=
  (Reachable.start agents scopes now).run actions

end World

/-! ## Scripted agents -/

/-- Whether a call asks for a renewal. -/
def AgentCall.isRenew : AgentCall → Bool
  | .renew _ => true
  | _ => false

/-- An agent that creates sessions at once, under the name `id`, and answers the renewals
in the order in which they come. -/
def Agent.scripted (id : String) (renewals : Nat → Answer Unit) (destroy : Answer Unit) :
    Agent where
  create _ _ := ⟨some 0, .ok id⟩
  renew history _ := renewals (history.countP (·.isRenew))
  destroy _ _ := destroy
  lock _ _ _ _ := ⟨some 0, .ok true⟩

end Tenure.Lifecycle
