import Tenure.Duration
import Tenure.Json.Node

/-!
# Durations in two parts

The form of a duration as an object of whole seconds and nanoseconds, `secs` and
`nanos`, both required and nothing else allowed. An array of the two is read as well.
Nanoseconds of a second or more carry into the seconds.
-/

namespace Tenure.Duration

open Json

/-- The two parts as an object. -/
def partsValue (d : Duration) : Value :=
  .object [("secs", .number (.natural d.secs)), ("nanos", .number (.natural d.subsecNanos))]

/-- The duration of two parts. -/
def ofParts (secs nanos : Nat) : Decoded Duration :=
  match ofParts? secs nanos with
  | some d => .ok d
  | none => unfit .durationOverflow

/-- The parts met so far. -/
structure PartsDraft where
  secs : Option Nat := none
  nanos : Option Nat := none

/-- Takes in one member. -/
def PartsDraft.take (d : PartsDraft) (name : String) (n : Node) : Decoded PartsDraft := do
  match name with
  | "secs" => return { d with secs := ← fillOnce name d.secs (n.asNatural 64) }
  | "nanos" => return { d with nanos := ← fillOnce name d.nanos (n.asNatural 32) }
  | _ => unfit (.unknownField name ["secs", "nanos"])

/-- The duration of both parts. -/
def PartsDraft.finish (d : PartsDraft) : Decoded Duration :=
  match d.secs, d.nanos with
  | none, _ => unfit (.missingField "secs")
  | _, none => unfit (.missingField "nanos")
  | some secs, some nanos => ofParts secs nanos

/-- A duration in two parts in a document. -/
def ofPartsNode (remaining : Nat) : Node → Decoded Duration
  | .array items closed => Node.opening remaining fun _ => do
    let (secs, items) ← Node.nextItem closed (Node.asNatural 64) items
    let some secs := secs | unfit (.invalidLength 0 "struct Duration")
    let (nanos, items) ← Node.nextItem closed (Node.asNatural 32) items
    let some nanos := nanos | unfit (.invalidLength 1 "struct Duration")
    let d ← ofParts secs nanos
    Node.endItems closed items
    return d
  | .object members closed _ => Node.opening remaining fun _ => do
    let draft ← Node.eachMember PartsDraft.take {} members closed
    draft.finish
  | n => n.reject "struct Duration"

end Tenure.Duration
