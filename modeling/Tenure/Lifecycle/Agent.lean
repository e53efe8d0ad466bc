import Tenure.Lifecycle.Clock
import Tenure.Session.Config

/-!
# Agents and their answers

An agent is anything that can create, renew and destroy sessions and lock keys. It is
described by the answer it would give to each call, which may depend on all calls it has
been asked before: an outcome, and the time until it comes, if it comes at all.

`Pending` is a call in flight: it is answered, or runs into its time limit, whichever
comes first; an answer at the very limit counts as an answer.
-/

namespace Tenure.Lifecycle

/-- What an agent can be asked. -/
inductive AgentCall
  | create (config : SessionConfig)
  | renew (id : String)
  | destroy (id : String)
  | lock (operation : LockOperation) (id key : String)
deriving DecidableEq

/-- An answer: what it says, and after how many milliseconds, none meaning never. -/
structure Answer (α : Type) where
  delay : Option Nat
  outcome : Except ClientError α

/-- An agent, by its answers to a call after the earlier calls, oldest first. -/
structure Agent where
  create : List AgentCall → SessionConfig → Answer String
  renew : List AgentCall → String → Answer Unit
  destroy : List AgentCall → String → Answer Unit
  lock : List AgentCall → LockOperation → String → String → Answer Bool

/-! ## Calls in flight -/

/-- A call in flight. -/
structure Pending (α : Type) where
  /-- distinguishes the calls of a run -/
  number : Nat
  /-- when the call was issued -/
  since : Nat
  /-- when the answer comes -/
  readyAt : Option Nat
  outcome : Except ClientError α
  /-- when the call is given up, in nanoseconds -/
  limit : Nat

/-- How a call in flight stands. -/
inductive Standing (α : Type)
  | waiting
  | answered (outcome : Except ClientError α)
  | timedOut

namespace Pending

/-- A call issued now. -/
def issue {α : Type} (number now : Nat) (answer : Answer α) (timeout : Duration) : Pending α :=
  { number, since := now, readyAt := answer.delay.map (now + ·), outcome := answer.outcome
    limit := deadlineAfter now timeout }

/-- Whether the answer has come. -/
def isReady {α : Type} (p : Pending α) (now : Nat) : Bool := p.readyAt.any (· ≤ now)

/-- How the call stands now. -/
def standing {α : Type} (p : Pending α) (now : Nat) : Standing α :=
  if p.isReady now then .answered p.outcome
  else if isDue p.limit now then .timedOut
  else .waiting

/-- Whether there is something to take note of. -/
def isSettled {α : Type} (p : Pending α) (now : Nat) : Bool := p.isReady now || isDue p.limit now

/-- When there will be something to take note of. -/
def wake {α : Type} (p : Pending α) : Nat :=
  match p.readyAt with
  | some t => min t (wakeAt p.limit)
  | none => wakeAt p.limit

end Pending

end Tenure.Lifecycle
