import Tenure.Lifecycle.Attempt
import Tenure.Lifecycle.Caller
import Tenure.Lifecycle.Scopes

/-!
# Runs

A `World` holds everything that takes part in a run: the clock, the agents, the scopes,
the attempts with their contexts, the callers, the journal and the metrics. `World.step`
performs one `Action`, and `World.run` a list of them, so the states that any schedule can
reach are the `run start actions`.

* **Turns.** Any process may be given a turn at any moment; one that has nothing to do is
  left as it is.
* **Time.** The clock moves only when no process has anything to do, and never past a
  moment at which one will have.
* **Surroundings.** Attempts are made, scopes are cancelled, callers come and are given
  up, and contexts are dropped at any moment.

An action that makes no sense in a state changes nothing.
-/

namespace Tenure.Lifecycle

/-- Everything that takes part in a run. -/
structure World (α : Type) where
  now : Nat := 0
  /-- how many turns there have been -/
  turns : Nat := 0
  agents : List Agent
  scopes : Scopes := {}
  attempts : List Attempt := []
  callers : List (Caller α) := []
  journal : List Entry := []
  metrics : Metrics := {}

/-- What can be given a turn. -/
inductive Process
  | opening (attempt : Nat)
  | renewal (attempt : Nat)
  | destruction (attempt : Nat)
  | caller (index : Nat)
deriving DecidableEq

/-- One step of a run. -/
inductive Action (α : Type)
  /-- An attempt to hold a session is made. -/
  | begin (agent parent : Nat) (session : Session)
  | poll (process : Process)
  /-- Somebody asks something of the context of an attempt. -/
  | call (attempt : Nat) (demand : Demand α)
  | abandon (caller : Nat)
  | drop (attempt : Nat)
  | cancelScope (scope : Nat)
  | handOutToken (attempt : Nat)
  | cancelToken (attempt token : Nat)
  /-- Time passes until a reading of the clock. -/
  | advance (moment : Nat)

namespace World

variable {α : Type}

/-! ## Views -/

/-- The context of an attempt, once there is one. -/
def context? (w : World α) (i : Nat) : Option Context := w.attempts[i]?.bind (·.context?)

/-- The events of an attempt, in order. -/
def eventsOf (w : World α) (i : Nat) : List Event :=
  (w.journal.filter (·.attempt == i)).map (·.event)

/-- The agent that an attempt was made with. -/
def agentOf (w : World α) (i : Nat) : Nat := (w.attempts[i]?.map (·.agent)).getD 0

/-- The calls that an agent has been asked, oldest first. -/
def history (w : World α) (agent : Nat) : List AgentCall :=
  (w.journal.filter fun e => w.agentOf e.attempt == agent).filterMap (·.event.agentCall?)

/-! ## Putting results back -/

/-- Enters events of an attempt in the journal and counts them. -/
def enter (w : World α) (i : Nat) (events : List Event) : World α :=
  { w with
    journal := w.journal ++ events.map fun e => ⟨w.now, i, e⟩
    metrics := events.foldl Metrics.record w.metrics }

/-- Puts another attempt in the place of one. -/
def setAttempt (w : World α) (i : Nat) (a : Attempt) : World α :=
  { w with attempts := w.attempts.set i a }

/-- Puts another context in the place of the one of an attempt. -/
def setContext (w : World α) (i : Nat) (c : Context) : World α :=
  { w with attempts := w.attempts.modify i (·.setContext c) }

/-- Puts another caller in the place of one. -/
def setCaller (w : World α) (j : Nat) (k : Caller α) : World α :=
  { w with callers := w.callers.set j k }

/-! ## Turns -/

/-- What a task of a context sees around it in the next turn. -/
def surroundings (w : World α) (agent : Agent) (c : Context) : Surroundings :=
  { now := w.now
    number := w.turns
    parentCancelled := w.scopes.isCancelled c.parent
    renewAnswer := agent.renew (w.history c.agent) c.session.id
    destroyAnswer := agent.destroy (w.history c.agent) c.session.id }

/-- A turn of a task of a context. -/
def pollContext (w : World α) (i : Nat)
    (turn : Surroundings → Context → Context × List Event) : World α :=
  match w.context? i with
  | none => w
  | some c =>
    match w.agents[c.agent]? with
    | none => w
    | some agent =>
      let (c, events) := turn (w.surroundings agent c) c
      (w.setContext i c).enter i events

/-- A turn of an attempt. -/
def pollAttempt (w : World α) (i : Nat) : World α :=
  match w.attempts[i]? with
  | none => w
  | some a =>
    match w.agents[a.agent]? with
    | none => w
    | some agent =>
      let (a, events) := a.poll (w.scopes.isCancelled a.parent) w.now w.turns
        (agent.create (w.history a.agent))
      (w.setAttempt i a).enter i events

/-- A turn of a caller. -/
def pollCaller (w : World α) (j : Nat) : World α :=
  match w.callers[j]? with
  | none => w
  | some k =>
    match w.context? k.attempt with
    | none => w
    | some c =>
      let (k', c, events) := k.poll w.now c
      ((w.setContext k.attempt c).setCaller j k').enter k.attempt events

/-- A turn of a process. -/
def poll (w : World α) (p : Process) : World α :=
  let w' := match p with
    | .opening i => w.pollAttempt i
    | .renewal i => w.pollContext i Context.pollRenewal
    | .destruction i => w.pollContext i Context.pollDestruction
    | .caller j => w.pollCaller j
  { w' with turns := w'.turns + 1 }

/-! ## Readiness and time -/

/-- Whether a turn of a process would do something. -/
def isReady (w : World α) : Process → Bool
  | .opening i => w.attempts[i]?.any fun a => a.isReady (w.scopes.isCancelled a.parent) w.now
  | .renewal i => (w.context? i).any fun c => c.renewalReady (w.scopes.isCancelled c.parent) w.now
  | .destruction i => (w.context? i).any (·.destructionReady w.now)
  | .caller j => w.callers[j]?.any fun k => (w.context? k.attempt).any (k.isReady w.now ·)

/-- When a process will next have something to do by itself. -/
def wake (w : World α) : Process → Option Nat
  | .opening i => w.attempts[i]?.bind (·.wake)
  | .renewal i => (w.context? i).bind (·.renewalWake)
  | .destruction i => (w.context? i).bind (·.destructionWake)
  | .caller j => w.callers[j]?.bind (·.wake)

/-- Every process of the run. -/
def processes (w : World α) : List Process :=
  ((List.range w.attempts.length).flatMap fun i => [.opening i, .renewal i, .destruction i])
    ++ (List.range w.callers.length).map .caller

/-- Whether no process has anything to do. -/
def isQuiet (w : World α) : Bool := w.processes.all fun p => !w.isReady p

/-- The moments at which a process will have something to do. -/
def wakes (w : World α) : List Nat := w.processes.filterMap w.wake

/-- Lets time pass, if nothing stands against it. -/
def advance (w : World α) (t : Nat) : World α :=
  if w.isQuiet && w.now < t && w.wakes.all (t ≤ ·) then { w with now := t } else w

/-! ## Runs -/

/-- Changes the context of an attempt, leaving events. -/
def updateContext (w : World α) (i : Nat) (f : Context → Context) (events : List Event) :
    World α :=
  match w.context? i with
  | none => w
  | some c => (w.setContext i (f c)).enter i events

/-- Gives a caller up. -/
def abandonCaller (w : World α) (j : Nat) : World α :=
  match w.callers[j]? with
  | none => w
  | some k =>
    match w.context? k.attempt with
    | none => w
    | some c =>
      let (k', c, events) := k.abandon c
      ((w.setContext k.attempt c).setCaller j k').enter k.attempt events

/-- Performs one action. -/
def step (w : World α) : Action α → World α
  | .begin agent parent session =>
    if agent < w.agents.length then
      { w with attempts := w.attempts ++ [{ agent, parent, requested := session }] }
    else w
  | .poll p => w.poll p
  | .call i demand =>
    if (w.context? i).isSome then { w with callers := w.callers ++ [⟨i, demand.activity⟩] } else w
  | .abandon j => w.abandonCaller j
  | .drop i => w.updateContext i Context.drop [.contextDropped]
  | .cancelScope i => { w with scopes := w.scopes.cancel i }
  | .handOutToken i => w.updateContext i Context.handOutToken []
  | .cancelToken i k => w.updateContext i (·.cancelToken k) []
  | .advance t => w.advance t

/-- Performs actions one after the other. -/
def run (w : World α) (actions : List (Action α)) : World α := actions.foldl step w

@[simp] theorem run_nil (w : World α) : w.run [] = w := rfl

@[simp] theorem run_cons (w : World α) (a : Action α) (actions : List (Action α)) :
    w.run (a :: actions) = (w.step a).run actions := rfl

theorem run_append (w : World α) (first second : List (Action α)) :
    w.run (first ++ second) = (w.run first).run second := by
  simp [run, List.foldl_append]

end World

end Tenure.Lifecycle
