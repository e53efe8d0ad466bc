import Tenure.Client.Agent
import Tenure.Holder.Log
import Tenure.Lifecycle.World

/-!
# The program that holds a session

The program begins a session, takes a lock under it if it was given a key, and holds
both until it is interrupted or the session ends; then it releases the lock, closes the
session and exits.

A `Holder` is the state of the program: a `World` with one attempt, in which the program
is a further task that waits for one caller after the other, and the log so far.
`Holder.step` makes one move: a turn of the program, a turn of another process, time
that passes, or an interruption. Any list of moves is a schedule.

* An interruption counts once the program listens. It comes to listen when it starts to
  hold, unless the session has ended by then and it looks there first. As long as it does
  not listen an interruption kills it on the spot; of those that it hears the first counts.
* When the program exits or is killed, whatever still runs is dropped.
* Where taking the lock fails, the program leaves without closing the session: the context
  is dropped, and the other processes may have turns until it exits.
-/

namespace Tenure

open Lifecycle

namespace Holder

/-! ## How it goes out -/

/-- Why the program failed. -/
inductive Failure
  | client (e : ClientError)
  | session (e : SessionError)
  /-- Another session holds the lock. -/
  | lockHeld (key : String)
deriving DecidableEq

/-- What a failure says. -/
def Failure.message : Failure → String
  | client e => e.message
  | session e => e.message
  | lockHeld key => "lock " ++ key ++ " is held by another session"

/-- How the program ended. -/
inductive Verdict
  /-- It was interrupted, and closed the session. -/
  | interrupted
  | failed (failure : Failure)
deriving DecidableEq

namespace Verdict

/-- The exit code. -/
def code : Verdict → Nat
  | interrupted => 0
  | failed _ => 1

/-- The last lines that the program writes. -/
def lines (v : Verdict) : List LogLine :=
  let last := LogLine.ofSetup .debug "Tracing shutdown complete"
  match v with
  | interrupted => [.own .info "Interrupted, session closed", last]
  | failed failure => [.own .error "consulate failed" failure.message, last]

end Verdict

/-- Why the session is closed. -/
inductive Closing
  | lockHeld (key : String)
  | interrupted
  | ended
deriving DecidableEq

/-- How the program ends after closing a session that ended with an error. -/
def Closing.verdict : Closing → SessionError → Verdict
  | lockHeld key, _ => .failed (.lockHeld key)
  | interrupted, _ => .interrupted
  | ended, e => .failed (.session e)

/-! ## State -/

/-- How far the program is; a number is that of the caller it waits for. -/
inductive Stage
  /-- Waits for the session to begin. -/
  | opening
  /-- Waits for the lock. -/
  | acquiring (key : String) (caller : Nat)
  /-- Waits for an interruption or the end of the session. -/
  | holding (caller : Nat)
  /-- Waits for the lock to be released. -/
  | releasing (caller : Nat) (interrupted : Bool)
  /-- Waits for the session to be closed. -/
  | closing (caller : Nat) (cause : Closing)
  /-- Has dropped the context and is about to exit. -/
  | leaving (failure : Failure)
  | exited (verdict : Verdict)
  | killed
deriving DecidableEq

end Holder

/-- What lock requests give. -/
abbrev LockAnswer := Except ClientError Bool

/-- The state of the program. -/
structure Holder where
  lockKey : Option String
  world : World LockAnswer
  stage : Holder.Stage
  /-- whether interruptions are heard -/
  listening : Bool := false
  log : List Holder.LogLine

namespace Holder

/-- The name under which the program reports itself. -/
def programName : String := "consulate"

/-- The name of the session when none is given. -/
def defaultSessionName : String := "consulate"

/-! ## Steps of the program -/

/-- Writes a line to the log. -/
def note (h : Holder) (l : LogLine) : Holder := { h with log := h.log ++ [l] }

/-- The program ends. -/
def exit (h : Holder) (v : Verdict) : Holder :=
  { h with stage := .exited v, log := h.log ++ v.lines }

/-- Performs one action of the world and writes the lines of its events. -/
def act (h : Holder) (a : Action LockAnswer) : Holder :=
  let world := h.world.step a
  let events := (world.journal.drop h.world.journal.length).map (·.event)
  { h with world, log := h.log ++ events.filterMap LogLine.ofEvent? }

/-- Asks something of the context and waits for the answer. -/
def ask (h : Holder) (demand : Demand LockAnswer) (stage : Nat → Stage) : Holder :=
  { h.act (.call 0 demand) with stage := stage h.world.callers.length }

/-- What the caller waited for has got, if it has returned. -/
def outcome? (h : Holder) (caller : Nat) : Option (Outcome LockAnswer) :=
  h.world.callers[caller]?.bind (·.outcome?)

/-- A lock request, as work: nothing goes out without a session. -/
def lockWork (h : Holder) (operation : LockOperation) (id key : String) : Work LockAnswer :=
  if id = "" then .yield (.error (.missingSession operation))
  else match h.world.agents[0]? with
    | none => .forever
    | some agent =>
      let answer := agent.lock (h.world.history 0) operation id key
      .step (.ask operation id key) (match answer.delay with
        | some ms => .sleep ms (.yield answer.outcome)
        | none => .forever)

/-- Closes the session. -/
def close (h : Holder) (cause : Closing) : Holder := h.ask .close (.closing · cause)

/-- Holding is over: a live session gives its lock back before it is closed. -/
def letGo (h : Holder) (interrupted : Bool) : Holder :=
  let close := h.close (if interrupted then .interrupted else .ended)
  match h.lockKey, h.world.context? 0 with
  | some key, some c =>
    if c.done then close
    else h.ask (.perform (h.lockWork .release c.session.id key)) (.releasing · interrupted)
  | _, _ => close

/-- Starts to hold the session: it comes to listen, and waits for an interruption or the end.
Where the session has ended by then, there is nothing to wait for, and whether it comes to
listen is a matter of which of the two it looks at first. -/
def hold (h : Holder) (endFirst : Bool) : Holder :=
  let h := h.note (.own .info "Holding session, press Ctrl+C to release")
  if (h.world.context? 0).any (·.done) then { h with listening := !endFirst }.letGo false
  else { h with listening := true }.ask .awaitEnd .holding

/-- The line about a lock that was to be released. -/
def releaseLine : LockAnswer → LogLine
  | .ok true => .own .info "Lock released"
  | .ok false => .own .warn "Lock was not held by this session"
  | .error e => .own .warn "Failed to release lock" e.message

/-- The program leaves with the session still begun: the context is dropped. -/
def desert (h : Holder) (failure : Failure) : Holder :=
  { h.act (.drop 0) with stage := .leaving failure }

/-- One turn of the program. Where it starts to hold, `endFirst` tells whether it looks at the
end of the session before it comes to listen. -/
def turn (h : Holder) (endFirst : Bool) : Holder :=
  match h.stage with
  | .opening =>
    match h.world.attempts[0]?.map Attempt.stage with
    | some (.begun c) =>
      match h.lockKey with
      | some key => h.ask (.scope (h.lockWork .acquire c.session.id key)) (.acquiring key)
      | none => h.hold endFirst
    | some (.refused e) => h.exit (.failed (.session e))
    | _ => h
  | .acquiring key caller =>
    match h.outcome? caller with
    | some (.value (.ok true)) => (h.note (.own .info "Lock acquired")).hold endFirst
    | some (.value (.ok false)) => h.close (.lockHeld key)
    | some (.value (.error e)) => h.desert (.client e)
    | some (.lost e) => h.desert (.session e)
    | _ => h
  | .holding caller =>
    match h.outcome? caller with
    | some .ended => h.letGo false
    | _ => h
  | .releasing caller interrupted =>
    match h.outcome? caller with
    | some (.performed answer) =>
      (h.note (releaseLine answer)).close (if interrupted then .interrupted else .ended)
    | _ => h
  | .closing caller cause =>
    match h.outcome? caller with
    | some (.closed e) => h.exit (cause.verdict e)
    | _ => h
  | .leaving failure => h.exit (.failed failure)
  | .exited _ => h
  | .killed => h

/-- The program is interrupted. -/
def interrupt (h : Holder) : Holder :=
  if h.listening then
    match h.stage with
    | .holding caller => (h.act (.abandon caller)).letGo true
    | _ => h
  else { h with stage := .killed }

/-! ## Runs -/

/-- Whether the program is no more. -/
def isOver (h : Holder) : Bool :=
  match h.stage with
  | .exited _ => true
  | .killed => true
  | _ => false

/-- Whether a turn of the program would do something. -/
def isReady (h : Holder) : Bool :=
  match h.stage with
  | .opening => h.world.attempts[0]?.any (·.isDecided)
  | .acquiring _ caller => (h.outcome? caller).isSome
  | .holding caller => (h.outcome? caller).isSome
  | .releasing caller _ => (h.outcome? caller).isSome
  | .closing caller _ => (h.outcome? caller).isSome
  | .leaving _ => true
  | .exited _ => false
  | .killed => false

/-- One move of a run. -/
inductive Move
  /-- A turn of the program, which may look at the end of the session first. -/
  | turn (endFirst : Bool)
  /-- A turn of a process of the world. -/
  | poll (process : Process)
  /-- Time passes until a reading of the clock. -/
  | advance (moment : Nat)
  | interrupt
deriving DecidableEq

/-- Makes one move; time passes only when the program, too, waits. -/
def step (h : Holder) (m : Move) : Holder :=
  if h.isOver then h
  else match m with
    | .turn endFirst => h.turn endFirst
    | .poll p => h.act (.poll p)
    | .advance t => if h.isReady then h else h.act (.advance t)
    | .interrupt => h.interrupt

/-- Makes moves one after the other. -/
def run (h : Holder) (moves : List Move) : Holder := moves.foldl step h

/-- The program at its start, given its arguments, the environment, and the agent that
its client reaches. -/
def start (arguments : List String) (env : Environment) (agentOf : Client → Agent) : Holder :=
  let lockKey := arguments[1]?
  let log := [LogLine.ofSetup .info "Tracing initialized"]
  match Client.ofEnvironment env programName with
  | .error e =>
    ({ lockKey, world := { agents := [] }, stage := .opening, log } : Holder).exit
      (.failed (.client e))
  | .ok client =>
    let session : Session := { name := some (arguments[0]?.getD defaultSessionName) }
    let world : World LockAnswer := { agents := [agentOf client], scopes := { links := [none] } }
    { lockKey, world := world.step (.begin 0 0 session), stage := .opening
      log := log ++ [.own .info "Connecting to agent"] }

/-- The calls that the agent was asked. -/
def calls (h : Holder) : List AgentCall := h.world.history 0

end Holder

end Tenure
