import Tenure.Lifecycle.Agent

/-!
# Events and metrics

Everything that a session does and that somebody outside can notice is an `Event`: the
calls to the agent and how they end, and the turns of the session's life. The journal of
a run lists them in order. `Metrics` counts some of them.
-/

namespace Tenure.Lifecycle

/-- What a piece of work can do for others to notice. -/
inductive WorkStep
  /-- A step of the work's own, told apart by a number. -/
  | mark (n : Nat)
  /-- The work asks the agent for a lock, or gives it back. -/
  | ask (operation : LockOperation) (id key : String)
deriving DecidableEq

/-- What can be noticed about a session. -/
inductive Event
  /-- A call went out to the agent. -/
  | issued (number : Nat) (call : AgentCall)
  /-- A call was answered. -/
  | answered (number : Nat) (ok : Bool)
  /-- A call was given up before it was answered. -/
  | abandoned (number : Nat)
  /-- The session exists and its context is live. -/
  | created (session : Session)
  | createFailed (name : Option String) (cause : ClientError)
  | renewed
  /-- A renewal failed with so many nanoseconds left before the session expires. -/
  | renewalMissed (cause : ClientError) (left : Nat)
  /-- A renewal failed after the session had expired. -/
  | expired (cause : ClientError)
  /-- The context has ended. -/
  | ending (reason : SessionError)
  | destroyed
  | destroyFailed (cause : ClientError)
  | destroyTimedOut (after : Duration)
  /-- The owner gave the context up. -/
  | contextDropped
  /-- Work under the context took a step. -/
  | worked (s : WorkStep)
  /-- Work beside the context took a step. -/
  | performed (s : WorkStep)
deriving DecidableEq

/-- The call to the agent that an event stands for, if it is one. -/
def Event.agentCall? : Event → Option AgentCall
  | .issued _ call => some call
  | .worked (.ask operation id key) => some (.lock operation id key)
  | .performed (.ask operation id key) => some (.lock operation id key)
  | _ => none

/-- One line of a journal: when, in which attempt to hold a session, and what. -/
structure Entry where
  time : Nat
  attempt : Nat
  event : Event
deriving DecidableEq

/-! ## Metrics -/

/-- The counters of sessions, relative to the start of a run. -/
structure Metrics where
  active : Int := 0
  createsOk : Nat := 0
  createsError : Nat := 0
  renewalsOk : Nat := 0
  renewalsMissed : Nat := 0
  renewalsExpired : Nat := 0
  teardownsCancelled : Nat := 0
  teardownsParentCancelled : Nat := 0
  teardownsRenewFailed : Nat := 0
  destroyFailures : Nat := 0
deriving DecidableEq

namespace Metrics

/-- Counts the end of a context under its reason. -/
def countEnding (m : Metrics) : SessionError → Metrics
  | .cancelled => { m with teardownsCancelled := m.teardownsCancelled + 1 }
  | .parentCancelled => { m with teardownsParentCancelled := m.teardownsParentCancelled + 1 }
  | .renewFailed .. => { m with teardownsRenewFailed := m.teardownsRenewFailed + 1 }
  | _ => m

/-- Counts one event. -/
def record (m : Metrics) : Event → Metrics
  | .created _ => { m with createsOk := m.createsOk + 1, active := m.active + 1 }
  | .createFailed .. => { m with createsError := m.createsError + 1 }
  | .renewed => { m with renewalsOk := m.renewalsOk + 1 }
  | .renewalMissed .. => { m with renewalsMissed := m.renewalsMissed + 1 }
  | .expired _ => { m with renewalsExpired := m.renewalsExpired + 1 }
  | .ending reason => { m.countEnding reason with active := m.active - 1 }
  | .destroyFailed _ => { m with destroyFailures := m.destroyFailures + 1 }
  | .destroyTimedOut _ => { m with destroyFailures := m.destroyFailures + 1 }
  | _ => m

end Metrics

end Tenure.Lifecycle
