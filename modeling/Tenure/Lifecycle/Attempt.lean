import Tenure.Lifecycle.Context

/-!
# Attempts to hold a session

An attempt begins with a configured session under a parent scope and ends with a context
or with an error. The parent is looked at first, then the configuration; only then is the
agent asked to create the session, with the lock-delay as time limit and for as long as
the parent is not cancelled. An attempt that is refused leaves nothing behind.
-/

namespace Tenure.Lifecycle

/-- How far an attempt has come. -/
inductive Stage
  /-- Nothing has happened yet. -/
  | fresh
  /-- The agent has been asked; `session` is the resolved one. -/
  | creating (session : Session) (call : Pending String)
  /-- There is no session, for this reason. -/
  | refused (error : SessionError)
  /-- The durations of the configuration broke down. -/
  | brokenDown
  /-- The session has a context. -/
  | begun (context : Context)

/-- An attempt to hold a session. -/
structure Attempt where
  agent : Nat
  parent : Nat
  requested : Session
  stage : Stage := .fresh

namespace Attempt

/-- The context, once there is one. -/
def context? (a : Attempt) : Option Context :=
  match a.stage with
  | .begun c => some c
  | _ => none

/-- Whether it is decided how the attempt goes out. -/
def isDecided (a : Attempt) : Bool :=
  match a.stage with
  | .fresh => false
  | .creating .. => false
  | _ => true

/-- Puts another context in the place of the one there is. -/
def setContext (a : Attempt) (c : Context) : Attempt := { a with stage := .begun c }

/-- The attempt fails. -/
def refuse (a : Attempt) (e : SessionError) : Attempt := { a with stage := .refused e }

/-- The agent has not created the session. -/
def createFailed (a : Attempt) (session : Session) (cause : ClientError) : Attempt × List Event :=
  (a.refuse (.create cause), [.createFailed session.name cause])

/-- Takes note of the create call in flight. -/
def pollCreating (a : Attempt) (parentCancelled : Bool) (now : Nat) (session : Session)
    (call : Pending String) : Attempt × List Event :=
  if parentCancelled then (a.refuse .parentCancelled, [.abandoned call.number])
  else match call.standing now with
    | .waiting => ({ a with stage := .creating session call }, [])
    | .answered (.ok id) =>
      let live := { session with id := id }
      (a.setContext (.start live a.agent a.parent now),
        [.answered call.number true, .created live])
    | .answered (.error cause) =>
      let (a, events) := a.createFailed session cause
      (a, .answered call.number false :: events)
    | .timedOut =>
      let (a, events) := a.createFailed session (.timeout session.effectiveLockDelay)
      (a, .abandoned call.number :: events)

/-- One turn of an attempt that is not decided. `createAnswer` is what the agent would
answer to a create call issued in this turn. -/
def poll (a : Attempt) (parentCancelled : Bool) (now number : Nat)
    (createAnswer : SessionConfig → Answer String) : Attempt × List Event :=
  match a.stage with
  | .fresh =>
    if parentCancelled then (a.refuse .parentCancelled, [])
    else match a.requested.resolve with
      | .error fault =>
        match fault.rejection with
        | some e => (a.refuse e, [])
        | none => ({ a with stage := .brokenDown }, [])
      | .ok session =>
        match session.wire? with
        | none => ({ a with stage := .brokenDown }, [])
        | some config =>
          let call := Pending.issue number now (createAnswer config) session.effectiveLockDelay
          let (a, events) := a.pollCreating false now session call
          (a, .issued number (.create config) :: events)
  | .creating session call => a.pollCreating parentCancelled now session call
  | _ => (a, [])

/-- Whether a turn of the attempt would do something. -/
def isReady (a : Attempt) (parentCancelled : Bool) (now : Nat) : Bool :=
  match a.stage with
  | .fresh => true
  | .creating _ call => parentCancelled || call.isSettled now
  | _ => false

/-- When the attempt will next have something to do by itself. -/
def wake (a : Attempt) : Option Nat :=
  match a.stage with
  | .creating _ call => some call.wake
  | _ => none

end Attempt

end Tenure.Lifecycle
