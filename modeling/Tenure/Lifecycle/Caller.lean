import Tenure.Lifecycle.Context

/-!
# Callers of a context

A caller asks something of a context and waits: to cancel it, to close it, for its end,
or for a piece of work that runs under it or beside it. A caller may be abandoned at any
point.

* Cancelling and closing record the terminal error at the first turn and return when the
  destroy attempt is over; closing also waits until the renewal task has exited.
* Work runs under the context only while it is live: each turn looks at the end first and
  only then runs the work until it waits or is finished. Work beside the context is not
  concerned by its end.
-/

namespace Tenure.Lifecycle

/-! ## Work -/

/-- A piece of work that yields a value: its steps and the waits between them. -/
inductive Work (α : Type)
  | yield (value : α)
  | step (s : WorkStep) (next : Work α)
  | sleep (ms : Nat) (next : Work α)
  /-- Waits until a reading of the clock. -/
  | asleep (moment : Nat) (next : Work α)
  | forever

namespace Work

/-- Runs the work until it waits or is finished: its value or what is left of it, and the
steps it took. -/
def run {α : Type} (now : Nat) : Work α → (α ⊕ Work α) × List WorkStep
  | yield value => (.inl value, [])
  | step s next =>
    let (rest, steps) := run now next
    (rest, s :: steps)
  | sleep ms next => if ms = 0 then run now next else (.inr (asleep (now + ms) next), [])
  | asleep t next => if t ≤ now then run now next else (.inr (asleep t next), [])
  | forever => (.inr forever, [])

/-- Whether the work would get on. -/
def isReady {α : Type} (now : Nat) : Work α → Bool
  | asleep t _ => t ≤ now
  | forever => false
  | _ => true

/-- When the work will get on by itself. -/
def wake {α : Type} : Work α → Option Nat
  | asleep t _ => some t
  | _ => none

end Work

/-! ## Callers -/

/-- What a caller is given in the end. -/
inductive Outcome (α : Type)
  /-- The cancellation is over. -/
  | cancelled
  /-- The context is closed; it ended with this error. -/
  | closed (error : SessionError)
  /-- The context has ended. -/
  | ended
  /-- The work yielded a value. -/
  | value (v : α)
  /-- The context ended before the work did. -/
  | lost (error : SessionError)
  /-- The work beside the context yielded a value. -/
  | performed (v : α)
deriving DecidableEq

/-- What can be asked of a context. -/
inductive Demand (α : Type)
  | cancel
  | close
  | awaitEnd
  /-- Run work while the context is live. -/
  | scope (work : Work α)
  /-- Run work whatever becomes of the context. -/
  | perform (work : Work α)

/-- What a caller is doing. -/
inductive Activity (α : Type)
  /-- About to cancel. -/
  | cancel
  /-- About to close. -/
  | close
  /-- Has asked for the end, and waits for the destroy attempt. -/
  | awaitDestroyed (closing : Bool)
  /-- Closing, and waits for the renewal task. -/
  | awaitRenewal
  | awaitEnd
  /-- Runs work under the context. -/
  | scope (work : Work α)
  /-- Runs work beside the context. -/
  | perform (work : Work α)
  | returned (outcome : Outcome α)
  | abandoned

/-- What a caller does about a demand before its first turn. -/
def Demand.activity {α : Type} : Demand α → Activity α
  | cancel => .cancel
  | close => .close
  | awaitEnd => .awaitEnd
  | scope work => .scope work
  | perform work => .perform work

/-- A caller of the context of an attempt. -/
structure Caller (α : Type) where
  attempt : Nat
  activity : Activity α

namespace Caller

variable {α : Type}

/-- What the caller was given, once it has returned. -/
def outcome? (k : Caller α) : Option (Outcome α) :=
  match k.activity with
  | .returned o => some o
  | _ => none

/-- Waits for the renewal task; closing ends the ownership of the context. -/
def pollAwaitRenewal (k : Caller α) (c : Context) : Caller α × Context × List Event :=
  if c.renewalExited then
    ({ k with activity := .returned (.closed c.terminalError) }, c.drop, [.contextDropped])
  else ({ k with activity := .awaitRenewal }, c, [])

/-- Waits for the destroy attempt. -/
def pollAwaitDestroyed (k : Caller α) (c : Context) (closing : Bool) :
    Caller α × Context × List Event :=
  if c.destroyed then
    if closing then k.pollAwaitRenewal c
    else ({ k with activity := .returned .cancelled }, c, [])
  else ({ k with activity := .awaitDestroyed closing }, c, [])

/-- Asks for the end, then waits. -/
def pollCancel (k : Caller α) (c : Context) (closing : Bool) : Caller α × Context × List Event :=
  let (c, ending) := c.conclude .cancelled
  let (k, c, events) := k.pollAwaitDestroyed c closing
  (k, c, ending ++ events)

/-- One turn of a caller. -/
def poll (k : Caller α) (now : Nat) (c : Context) : Caller α × Context × List Event :=
  match k.activity with
  | .cancel => k.pollCancel c false
  | .close => k.pollCancel c true
  | .awaitDestroyed closing => k.pollAwaitDestroyed c closing
  | .awaitRenewal => k.pollAwaitRenewal c
  | .awaitEnd => if c.done then ({ k with activity := .returned .ended }, c, []) else (k, c, [])
  | .scope work =>
    if c.done then ({ k with activity := .returned (.lost c.terminalError) }, c, [])
    else match work.run now with
      | (.inl v, steps) => ({ k with activity := .returned (.value v) }, c, steps.map .worked)
      | (.inr rest, steps) => ({ k with activity := .scope rest }, c, steps.map .worked)
  | .perform work =>
    match work.run now with
    | (.inl v, steps) =>
      ({ k with activity := .returned (.performed v) }, c, steps.map .performed)
    | (.inr rest, steps) => ({ k with activity := .perform rest }, c, steps.map .performed)
  | .returned _ => (k, c, [])
  | .abandoned => (k, c, [])

/-- Whether a turn of the caller would do something. -/
def isReady (k : Caller α) (now : Nat) (c : Context) : Bool :=
  match k.activity with
  | .cancel => true
  | .close => true
  | .awaitDestroyed _ => c.destroyed
  | .awaitRenewal => c.renewalExited
  | .awaitEnd => c.done
  | .scope work => c.done || work.isReady now
  | .perform work => work.isReady now
  | .returned _ => false
  | .abandoned => false

/-- When the caller will next have something to do by itself. -/
def wake (k : Caller α) : Option Nat :=
  match k.activity with
  | .scope work => work.wake
  | .perform work => work.wake
  | _ => none

/-- Gives the caller up, unless it has returned. A caller that was closing the context
owned it, so the context goes with it. -/
def abandon (k : Caller α) (c : Context) : Caller α × Context × List Event :=
  let given := { k with activity := .abandoned }
  match k.activity with
  | .returned _ => (k, c, [])
  | .abandoned => (k, c, [])
  | .close => (given, c.drop, [.contextDropped])
  | .awaitDestroyed true => (given, c.drop, [.contextDropped])
  | .awaitRenewal => (given, c.drop, [.contextDropped])
  | _ => (given, c, [])

end Caller

end Tenure.Lifecycle
