import Tenure.Holder.Run
import Tenure.Holder.Setup

/-!
# A schedule of the program

The schedule that a run from the command line follows: the program goes first, then what
it waits for, then the tasks of the session, and time passes when all of them wait. The
program always comes to listen when it starts to hold, and an interruption, if there is to
be one, comes as soon as it waits for one.
-/

namespace Tenure.Holder

open Lifecycle

/-- Whether a process is what the program itself waits for. -/
def isAwaited : Process → Bool
  | .opening _ => true
  | .caller _ => true
  | _ => false

/-- Whether the program waits for an interruption. -/
def listens (h : Holder) : Bool :=
  match h.stage with
  | .holding _ => true
  | _ => false

/-- The next move of the schedule; none when nothing can happen any more. -/
def nextMove? (h : Holder) (interrupts : Bool) : Option Move :=
  if h.isOver then none
  else if h.isReady then some (.turn false)
  else if interrupts && h.listens then some .interrupt
  else
    let ready := h.world.processes.filter h.world.isReady
    match (ready.find? isAwaited).or ready.head? with
    | some p => some (.poll p)
    | none => h.world.wakes.min?.map .advance

/-- Follows the schedule for a number of moves at most. -/
def follow (interrupts : Bool) : Nat → Holder → Holder
  | 0, h => h
  | fuel + 1, h =>
    match h.nextMove? interrupts with
    | none => h
    | some m => follow interrupts fuel (h.step m)

/-- More moves than a run takes in which the session is not held for days. -/
def moveBound : Nat := 20000

/-- Follows the schedule to its end. -/
def play (h : Holder) (interrupts : Bool) : Holder := follow interrupts moveBound h

/-- The lines of the log that a setup lets through. -/
def written (h : Holder) (setup : LogSetup) : List LogLine := h.log.filter setup.filter.passes

/-- The exit code, if the program has exited. -/
def code? (h : Holder) : Option Nat :=
  match h.stage with
  | .exited v => some v.code
  | _ => none

end Tenure.Holder
