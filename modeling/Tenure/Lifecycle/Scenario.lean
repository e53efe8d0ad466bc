import Tenure.Lifecycle.World

/-!
# Scenarios

A scenario drives a `World` by a list of steps, the way a program does that owns some
slots, each with an agent, a session and room for one context. The program takes one step
after the other, waiting where a step waits; cancellations can be left to happen later.

The schedule is a fixed one: the program itself goes first, then what falls due, then the
processes in order, and time passes only when everything waits. Every change goes through
`World.step`, so a scenario is one of the runs that `World.run` describes.
-/

namespace Tenure.Lifecycle

/-! ## Steps -/

/-- One step of the program; `slot` says which slot it concerns. -/
inductive ScenarioStep (α : Type)
  | begin (slot parent : Nat)
  | sleep (ms : Nat)
  | cancelScope (scope : Nat)
  | cancelScopeLater (scope ms : Nat)
  | cancelLater (slot ms : Nat)
  /-- Several cancellations at once through handles. -/
  | cancelByHandles (slot count : Nat)
  | cancel (slot : Nat)
  /-- A cancellation that is given up after a while. -/
  | cancelWithin (slot ms : Nat)
  | awaitEnd (slot ms : Nat)
  | error (slot : Nat)
  | display (slot : Nat)
  | handOutToken (slot : Nat)
  | cancelToken (slot token : Nat)
  | scope (slot : Nat) (work : Work α)
  | close (slot : Nat)
  | drop (slot : Nat)
  /-- Does nothing. -/
  | idle

/-- What a step gives. -/
inductive StepResult (α : Type)
  | nothing
  /-- The slot holds no context, or never had one. -/
  | noContext
  | begun (session : Session)
  | refused (error : SessionError)
  | brokenDown
  /-- Whether the cancellation was over in time. -/
  | cancelled (inTime : Bool)
  /-- Whether the end came in time. -/
  | ended (inTime : Bool)
  | error (error : Option SessionError)
  | displayed (context handle : String)
  | value (v : α)
  | lost (error : SessionError)
  | closed (error : SessionError)

/-- Something that happens at a moment. -/
inductive Alarm
  | cancelScope (scope : Nat)
  | cancelContext (attempt : Nat)
deriving DecidableEq

/-- A place for one context; `handle` is the attempt whose context it held last. -/
structure Slot where
  session : Session
  held : Option Nat := none
  handle : Option Nat := none

/-- The state of a scenario: the agents are those of the slots, in order. -/
structure Scenario (α : Type) where
  world : World α
  slots : List Slot
  alarms : List (Nat × Alarm) := []

namespace Scenario

variable {α : Type}

/-- A scenario that has not begun. -/
def start (agents : List Agent) (sessions : List Session) (links : List (Option Nat)) :
    Scenario α :=
  { world := { agents, scopes := { links } }, slots := sessions.map fun s => { session := s } }

/-- Performs one action of the world. -/
def act (s : Scenario α) (a : Action α) : Scenario α := { s with world := s.world.step a }

/-- Asks something of a context; the new caller comes last. -/
def call (s : Scenario α) (attempt : Nat) (demand : Demand α) : Scenario α :=
  s.act (.call attempt demand)

/-- Sets off one alarm. -/
def ring (s : Scenario α) : Alarm → Scenario α
  | .cancelScope i => s.act (.cancelScope i)
  | .cancelContext i => s.call i .cancel

/-- Sets off the alarms that are due; none if there are none. -/
def ringDue? (s : Scenario α) : Option (Scenario α) :=
  let due := s.alarms.filter (·.1 ≤ s.world.now)
  if due.isEmpty then none
  else some ((due.map (·.2)).foldl ring
    { s with alarms := s.alarms.filter fun a => !(a.1 ≤ s.world.now) })

/-! ## Waiting -/

/-- Gives those of the program's own processes a turn that have something to do. -/
def pollOwn (s : Scenario α) (own : List Process) : Scenario α :=
  own.foldl (fun s p => if s.world.isReady p then s.act (.poll p) else s) s

/-- The earliest of some moments. -/
def earliest : List Nat → Option Nat
  | [] => none
  | t :: ts => some (ts.foldl min t)

/-- Waits until `arrived` holds, at most until `limit`, and says which it was. The fuel
bounds the number of turns. -/
def awaitWith (own : List Process) (arrived : World α → Bool) (limit : Option Nat) :
    Nat → Scenario α → Scenario α × Bool
  | 0, s => (s, false)
  | fuel + 1, s =>
    let s := s.pollOwn own
    if arrived s.world then (s, true)
    else if limit.any (· ≤ s.world.now) then (s, false)
    else match s.ringDue? with
      | some s => awaitWith own arrived limit fuel s
      | none =>
        match s.world.processes.find? fun p => !own.contains p && s.world.isReady p with
        | some p => awaitWith own arrived limit fuel (s.act (.poll p))
        | none =>
          match earliest (s.world.wakes ++ s.alarms.map (·.1) ++ limit.toList) with
          | some t => awaitWith own arrived limit fuel (s.act (.advance t))
          | none => (s, false)

/-- More turns than any scenario of reasonable length takes. -/
def turnBound : Nat := 10000000

/-- Waits until `arrived` holds, at most until `limit`. -/
def await (s : Scenario α) (own : List Process) (arrived : World α → Bool)
    (limit : Option Nat) : Scenario α × Bool :=
  awaitWith own arrived limit turnBound s

/-- Lets a number of milliseconds pass. -/
def sleep (s : Scenario α) (ms : Nat) : Scenario α :=
  (s.await [] (fun _ => false) (some (s.world.now + ms))).1

/-- The outcome of a caller, once it has returned. -/
def outcome? (w : World α) (caller : Nat) : Option (Outcome α) :=
  w.callers[caller]?.bind (·.outcome?)

/-- Asks something of a context and waits for the answer, at most `limit` milliseconds. A
caller that is too late is given up. -/
def demand (s : Scenario α) (attempt : Nat) (d : Demand α) (limit : Option Nat) :
    Scenario α × Option (Outcome α) :=
  let caller := s.world.callers.length
  let s := s.call attempt d
  let (s, inTime) := s.await [.caller caller] (fun w => (outcome? w caller).isSome)
    (limit.map (s.world.now + ·))
  if inTime then (s, outcome? s.world caller) else (s.act (.abandon caller), none)

/-! ## Performing steps -/

/-- Changes one slot. -/
def modifySlot (s : Scenario α) (i : Nat) (f : Slot → Slot) : Scenario α :=
  { s with slots := s.slots.modify i f }

/-- The attempt whose context a slot holds. -/
def held? (s : Scenario α) (i : Nat) : Option Nat := s.slots[i]?.bind (·.held)

/-- The attempt that a slot has a handle for. -/
def handle? (s : Scenario α) (i : Nat) : Option Nat := s.slots[i]?.bind (·.handle)

/-- Drops the context that a slot holds. -/
def dropHeld (s : Scenario α) (i : Nat) : Scenario α :=
  match s.held? i with
  | some attempt => (s.act (.drop attempt)).modifySlot i ({ · with held := none })
  | none => s

/-- Begins a session in a slot; a context that is there goes once the new one is. -/
def beginIn (s : Scenario α) (i parent : Nat) : Scenario α × StepResult α :=
  match s.slots[i]? with
  | none => (s, .noContext)
  | some slot =>
    let attempt := s.world.attempts.length
    let s := s.act (.begin i parent slot.session)
    let (s, _) := s.await [.opening attempt]
      (fun w => w.attempts[attempt]?.any (·.isDecided)) none
    match (s.world.attempts[attempt]?).map Attempt.stage with
    | some (.begun c) =>
      let s := s.dropHeld i
      (s.modifySlot i ({ · with held := some attempt, handle := some attempt }),
        .begun c.session)
    | some (.refused e) => (s, .refused e)
    | some .brokenDown => (s, .brokenDown)
    | _ => (s, .nothing)

/-- Cancels through several handles at once. -/
def cancelByHandles (s : Scenario α) (attempt count : Nat) : Scenario α :=
  let first := s.world.callers.length
  let s := (List.range count).foldl (fun s _ => s.call attempt .cancel) s
  let callers := (List.range count).map (first + ·)
  (s.await (callers.map .caller)
    (fun w => callers.all fun j => (outcome? w j).isSome) none).1

/-- Takes one step. -/
def perform (s : Scenario α) : ScenarioStep α → Scenario α × StepResult α
  | .begin i parent => s.beginIn i parent
  | .sleep ms => (s.sleep ms, .nothing)
  | .cancelScope i => (s.act (.cancelScope i), .nothing)
  | .cancelScopeLater i ms =>
    ({ s with alarms := s.alarms ++ [(s.world.now + ms, .cancelScope i)] }, .nothing)
  | .cancelLater i ms =>
    match s.handle? i with
    | none => (s, .noContext)
    | some a => ({ s with alarms := s.alarms ++ [(s.world.now + ms, .cancelContext a)] }, .nothing)
  | .cancelByHandles i count =>
    match s.handle? i with
    | none => (s, .noContext)
    | some a => (s.cancelByHandles a count, .nothing)
  | .cancel i =>
    match s.held? i with
    | none => (s, .noContext)
    | some a => ((s.demand a .cancel none).1, .nothing)
  | .cancelWithin i ms =>
    match s.held? i with
    | none => (s, .noContext)
    | some a =>
      let (s, outcome) := s.demand a .cancel (some ms)
      (s, .cancelled outcome.isSome)
  | .awaitEnd i ms =>
    match s.held? i with
    | none => (s, .noContext)
    | some a =>
      let (s, outcome) := s.demand a .awaitEnd (some ms)
      (s, .ended outcome.isSome)
  | .error i =>
    match (s.held? i).bind s.world.context? with
    | none => (s, .noContext)
    | some c => (s, .error c.error)
  | .display i =>
    match (s.held? i).bind s.world.context? with
    | none => (s, .noContext)
    | some c => (s, .displayed c.display c.displayHandle)
  | .handOutToken i =>
    match s.held? i with
    | none => (s, .noContext)
    | some a => (s.act (.handOutToken a), .nothing)
  | .cancelToken i token =>
    match s.handle? i with
    | none => (s, .nothing)
    | some a => (s.act (.cancelToken a token), .nothing)
  | .scope i work =>
    match s.held? i with
    | none => (s, .noContext)
    | some a =>
      match s.demand a (.scope work) none with
      | (s, some (.value v)) => (s, .value v)
      | (s, some (.lost e)) => (s, .lost e)
      | (s, _) => (s, .nothing)
  | .close i =>
    match s.held? i with
    | none => (s, .noContext)
    | some a =>
      let (s, outcome) := s.demand a .close none
      let s := s.modifySlot i ({ · with held := none })
      match outcome with
      | some (.closed e) => (s, .closed e)
      | _ => (s, .nothing)
  | .drop i =>
    match s.held? i with
    | none => (s, .nothing)
    | some _ => (s.dropHeld i, .nothing)
  | .idle => (s, .nothing)

/-! ## Looking at slots -/

/-- The context that a slot has a handle for. -/
def contextOf (s : Scenario α) (i : Nat) : Option Context := (s.handle? i).bind s.world.context?

/-- How many calls of a kind the agent of a slot has been asked. -/
def countCalls (s : Scenario α) (i : Nat) (kind : AgentCall → Bool) : Nat :=
  ((s.world.history i).filter kind).length

/-- A call to an agent, and how it went. -/
structure CallRecord where
  call : AgentCall
  start : Nat
  /-- when it ended and whether with success; an aborted call has no success to tell -/
  finish : Option (Nat × Option Bool)
deriving DecidableEq

/-- The end of a call, if the journal has it. -/
def finishOf (journal : List Entry) (number : Nat) : Option (Nat × Option Bool) :=
  journal.findSome? fun e =>
    match e.event with
    | .answered n ok => if n = number then some (e.time, some ok) else none
    | .abandoned n => if n = number then some (e.time, none) else none
    | _ => none

/-- The calls to the agent of a slot, in the order of their start. -/
def callsOf (s : Scenario α) (i : Nat) : List CallRecord :=
  s.world.journal.filterMap fun e =>
    match e.event with
    | .issued number call =>
      if s.world.agentOf e.attempt = i then
        some ⟨call, e.time, finishOf s.world.journal number⟩
      else none
    | _ => none

end Scenario

end Tenure.Lifecycle
