import Tenure.Lifecycle.Event

/-!
# The context of a live session

A context ties work to a session: it is live until its **terminal error** is recorded,
and whoever records it first decides the reason. Two tasks belong to it, each described
by where it stands and by what one turn of it (a *poll*) does.

* **Renewal** waits for the end, the parent scope, the owner and the next tick, in this
  order of precedence. At a tick it issues a renewal with a time limit of one period.
  While the renewal is in flight only the end and the limit are watched. A success moves
  the expiry to one TTL after the renewal was issued; a failure of a renewal that was
  issued at the expiry or later ends the context.
* **Destruction** starts when the context ends and calls the agent once, with the
  lock-delay as time limit. When the attempt is over, however it went, the context is
  `destroyed`.

A turn is a function of the context and of the `Surroundings` that the turn can see; it
gives the context after it and the events it caused, in order.
-/

namespace Tenure.Lifecycle

/-! ## State -/

/-- Where the renewal task stands; `tick` is the next tick and `expiry` the moment from
which on a failed renewal ends the context, both in nanoseconds. -/
inductive Renewal
  | waiting (tick expiry : Nat)
  | renewing (tick expiry : Nat) (call : Pending Unit)
  | tearingDown
  | exited

/-- Where the destruction of the session stands. -/
inductive Destruction
  | idle
  | queued
  | calling (call : Pending Unit)
  | finished

/-- A session that has been created, and what is known about its end. -/
structure Context where
  /-- the live session: identifier assigned, durations set -/
  session : Session
  agent : Nat
  parent : Nat
  /-- when the context began -/
  started : Nat
  /-- the terminal error -/
  error : Option SessionError := none
  /-- signals the end -/
  done : Bool := false
  /-- signals that the owner gave the context up -/
  dropped : Bool := false
  /-- signals that the destroy attempt is over -/
  destroyed : Bool := false
  /-- the tokens handed out, true when cancelled -/
  tokens : List Bool := []
  renewal : Renewal
  destruction : Destruction := .idle

/-- What a turn of a task can see around it. -/
structure Surroundings where
  now : Nat
  /-- the number of a call issued in this turn -/
  number : Nat
  parentCancelled : Bool
  /-- what the agent would answer to a renewal issued in this turn -/
  renewAnswer : Answer Unit
  /-- what the agent would answer to a destroy call issued in this turn -/
  destroyAnswer : Answer Unit

namespace Context

/-- The effective TTL of the session. -/
def ttl (c : Context) : Duration := c.session.effectiveTtl?.getD .zero

/-- The time between renewals. -/
def period (c : Context) : Duration := c.ttl.divide 3

/-- The time limit of the destroy attempt. -/
def lockDelay (c : Context) : Duration := c.session.effectiveLockDelay

/-- The context of a session that has just been created. Readings of the clock have no
upper bound here; on a clock that counts seconds in 64 bits the first expiry, `now` and
the TTL together, is out of range for a TTL of some 2^63 seconds, and the program breaks
down. -/
def start (session : Session) (agent parent now : Nat) : Context :=
  let ttl := session.effectiveTtl?.getD .zero
  { session, agent, parent, started := now
    renewal := .waiting (toNanos now + (ttl.divide 3).nanos) (toNanos now + ttl.nanos) }

/-- Whether the renewal task is over. -/
def renewalExited (c : Context) : Bool :=
  match c.renewal with
  | .exited => true
  | _ => false

/-- The error that the context ended with, as its waiting callers see it. -/
def terminalError (c : Context) : SessionError := c.error.getD .cancelled

/-! ## The end -/

/-- Records the terminal error unless there is one: signals the end, cancels the tokens
and puts the destruction in the queue. -/
def conclude (c : Context) (e : SessionError) : Context × List Event :=
  match c.error with
  | some _ => (c, [])
  | none =>
    ({ c with
        error := some e
        done := true
        tokens := c.tokens.map fun _ => true
        destruction := .queued },
      [.ending e])

/-- Hands out a token, which is cancelled when the context is or as soon as it ends. -/
def handOutToken (c : Context) : Context := { c with tokens := c.tokens ++ [c.done] }

/-- Cancels one of the tokens, which concerns nobody else. -/
def cancelToken (c : Context) (i : Nat) : Context := { c with tokens := c.tokens.set i true }

/-- The owner gives the context up. -/
def drop (c : Context) : Context := { c with dropped := true }

/-! ## Renewal -/

/-- Ticks that come more than this late, in nanoseconds, shift those after them. -/
def tickTolerance : Nat := 5 * nanosPerMilli

/-- The tick after one that is taken now. -/
def nextTick (c : Context) (tick now : Nat) : Nat :=
  if tick + tickTolerance < toNanos now then toNanos now + c.period.nanos
  else tick + c.period.nanos

/-- The renewal task ends the context and waits for the destroy attempt. -/
def tearDown (c : Context) (e : SessionError) : Context × List Event :=
  let (c, events) := c.conclude e
  ({ c with renewal := .tearingDown }, events)

/-- A renewal has failed. -/
def renewalFailed (c : Context) (tick expiry : Nat) (call : Pending Unit) (cause : ClientError) :
    Context × List Event :=
  if toNanos call.since < expiry then
    ({ c with renewal := .waiting tick expiry },
      [.renewalMissed cause (expiry - toNanos call.since)])
  else
    let (c, events) := c.tearDown (.renewFailed c.session.id cause)
    (c, .expired cause :: events)

/-- Takes note of a renewal in flight. A success moves the expiry to one TTL after the
renewal was issued; that moment has no upper bound here either (see `start`). -/
def pollRenewing (s : Surroundings) (c : Context) (tick expiry : Nat) (call : Pending Unit) :
    Context × List Event :=
  if c.done then ({ c with renewal := .exited }, [.abandoned call.number])
  else match call.standing s.now with
    | .waiting => ({ c with renewal := .renewing tick expiry call }, [])
    | .answered (.ok ()) =>
      ({ c with renewal := .waiting tick (toNanos call.since + c.ttl.nanos) },
        [.answered call.number true, .renewed])
    | .answered (.error cause) =>
      let (c, events) := c.renewalFailed tick expiry call cause
      (c, .answered call.number false :: events)
    | .timedOut =>
      let (c, events) := c.renewalFailed tick expiry call (.timeout c.period)
      (c, .abandoned call.number :: events)

/-- One turn of the renewal task. -/
def pollRenewal (s : Surroundings) (c : Context) : Context × List Event :=
  match c.renewal with
  | .waiting tick expiry =>
    if c.done then ({ c with renewal := .exited }, [])
    else if s.parentCancelled then c.tearDown .parentCancelled
    else if c.dropped then c.tearDown .cancelled
    else if isDue tick s.now then
      let call := Pending.issue s.number s.now s.renewAnswer c.period
      let (c, events) := c.pollRenewing s (c.nextTick tick s.now) expiry call
      (c, .issued s.number (.renew c.session.id) :: events)
    else (c, [])
  | .renewing tick expiry call => c.pollRenewing s tick expiry call
  | .tearingDown => if c.destroyed then ({ c with renewal := .exited }, []) else (c, [])
  | .exited => (c, [])

/-- Whether a turn of the renewal task would do something. -/
def renewalReady (c : Context) (parentCancelled : Bool) (now : Nat) : Bool :=
  match c.renewal with
  | .waiting tick _ => c.done || parentCancelled || c.dropped || isDue tick now
  | .renewing _ _ call => c.done || call.isSettled now
  | .tearingDown => c.destroyed
  | .exited => false

/-- When the renewal task will next have something to do by itself. -/
def renewalWake (c : Context) : Option Nat :=
  match c.renewal with
  | .waiting tick _ => some (wakeAt tick)
  | .renewing _ _ call => some call.wake
  | _ => none

/-! ## Destruction -/

/-- The destroy attempt is over. -/
def destructionOver (c : Context) : Context :=
  { c with destroyed := true, destruction := .finished }

/-- Takes note of the destroy call in flight. -/
def pollDestroying (s : Surroundings) (c : Context) (call : Pending Unit) :
    Context × List Event :=
  match call.standing s.now with
  | .waiting => ({ c with destruction := .calling call }, [])
  | .answered (.ok ()) => (c.destructionOver, [.answered call.number true, .destroyed])
  | .answered (.error cause) =>
    (c.destructionOver, [.answered call.number false, .destroyFailed cause])
  | .timedOut => (c.destructionOver, [.abandoned call.number, .destroyTimedOut c.lockDelay])

/-- One turn of the destruction task. -/
def pollDestruction (s : Surroundings) (c : Context) : Context × List Event :=
  match c.destruction with
  | .queued =>
    let call := Pending.issue s.number s.now s.destroyAnswer c.lockDelay
    let (c, events) := c.pollDestroying s call
    (c, .issued s.number (.destroy c.session.id) :: events)
  | .calling call => c.pollDestroying s call
  | _ => (c, [])

/-- Whether a turn of the destruction task would do something. -/
def destructionReady (c : Context) (now : Nat) : Bool :=
  match c.destruction with
  | .queued => true
  | .calling call => call.isSettled now
  | _ => false

/-- When the destruction task will next have something to do by itself. -/
def destructionWake (c : Context) : Option Nat :=
  match c.destruction with
  | .calling call => some call.wake
  | _ => none

/-! ## Display -/

/-- A client error with its fields. -/
def displayClientError : ClientError → String
  | .network => "Http"
  | .socket => "Unix"
  | .body => "Body"
  | .request reason => "Request(" ++ Text.quoted reason ++ ")"
  | .json _ => "Json"
  | .status method url code =>
    "Status \x7b method: " ++ Text.quoted method.name ++ ", url: " ++ Text.quoted url
      ++ ", status: " ++ String.ofList (Numeric.decimalDigits code) ++ " \x7d"
  | .invalidAddress address => "InvalidAddress(" ++ Text.quoted address ++ ")"
  | .timeout after => "Timeout(" ++ after.display ++ ")"
  | .cancelled => "Cancelled"
  | .missingSession operation => "MissingSession(" ++ Text.quoted operation.name ++ ")"

/-- A session error with its fields. -/
def displayError : SessionError → String
  | .config reason => "Config(" ++ Text.quoted reason ++ ")"
  | .create cause => "Create(" ++ displayClientError cause ++ ")"
  | .cancelled => "Cancelled"
  | .parentCancelled => "ParentCancelled"
  | .renewFailed id cause =>
    "RenewFailed \x7b id: " ++ Text.quoted id ++ ", cause: " ++ displayClientError cause ++ " \x7d"

/-- The context with its session and its terminal error. -/
def display (c : Context) : String :=
  let error := match c.error with
    | none => "None"
    | some e => "Some(" ++ displayError e ++ ")"
  "SessionContext \x7b session: " ++ c.session.display ++ ", err: " ++ error ++ " \x7d"

/-- A handle to the context, which shows the identifier alone. -/
def displayHandle (c : Context) : String := "CancelHandle(" ++ Text.quoted c.session.id ++ ")"

end Context

end Tenure.Lifecycle
