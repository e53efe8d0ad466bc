import Tenure.Session.Config

/-!
# Sessions as the agent reports them

`SessionInfo.ofNode` decodes a report from an object or from an array of the fields in
order. Only the identifier is required; every other field has a default, unknown
members are passed over, and a field given twice is an error.
-/

namespace Tenure

open Json

/-- A session as reported by the agent. -/
structure SessionInfo where
  id : String
  name : String := ""
  node : String := ""
  behavior : Behavior := .release
  lockDelay : Duration := .zero
  ttl : Duration := .zero
  createIndex : Nat := 0
deriving DecidableEq

namespace SessionInfo

/-- The fields met so far. -/
structure Draft where
  id : Option String := none
  name : Option String := none
  node : Option String := none
  behavior : Option Behavior := none
  lockDelay : Option Duration := none
  ttl : Option Duration := none
  createIndex : Option Nat := none

/-- Takes in one member. -/
def Draft.take (remaining : Nat) (d : Draft) (name : String) (n : Node) : Decoded Draft := do
  match name with
  | "ID" => return { d with id := ← fillOnce name d.id n.asText }
  | "Name" => return { d with name := ← fillOnce name d.name n.asText }
  | "Node" => return { d with node := ← fillOnce name d.node n.asText }
  | "Behavior" =>
    return { d with behavior := ← fillOnce name d.behavior (Behavior.ofNode remaining n) }
  | "LockDelay" =>
    return { d with lockDelay := ← fillOnce name d.lockDelay (Duration.ofNode remaining n) }
  | "TTL" => return { d with ttl := ← fillOnce name d.ttl (Duration.ofNode remaining n) }
  | "CreateIndex" => return { d with createIndex := ← fillOnce name d.createIndex (n.asNatural 64) }
  | _ => n.skip; return d

/-- The report, with defaults for what was not met. -/
def Draft.finish (d : Draft) : Decoded SessionInfo :=
  match d.id with
  | none => unfit (.missingField "ID")
  | some id => .ok {
      id := id
      name := d.name.getD ""
      node := d.node.getD ""
      behavior := d.behavior.getD .release
      lockDelay := d.lockDelay.getD .zero
      ttl := d.ttl.getD .zero
      createIndex := d.createIndex.getD 0 }

/-- The report of an array of fields in order. -/
def ofItems (remaining : Nat) (items : List Node) (closed : Bool) : Decoded SessionInfo := do
  let (id, items) ← Node.nextItem closed Node.asText items
  match id with
  | none => unfit (.invalidLength 0 "struct SessionInfo with 7 elements")
  | some id =>
    let (name, items) ← Node.nextItem closed Node.asText items
    let (node, items) ← Node.nextItem closed Node.asText items
    let (behavior, items) ← Node.nextItem closed (Behavior.ofNode remaining) items
    let (lockDelay, items) ← Node.nextItem closed (Duration.ofNode remaining) items
    let (ttl, items) ← Node.nextItem closed (Duration.ofNode remaining) items
    let (createIndex, items) ← Node.nextItem closed (Node.asNatural 64) items
    Node.endItems closed items
    Draft.finish { id, name, node, behavior, lockDelay, ttl, createIndex }

/-- A report in a document. -/
def ofNode (remaining : Nat) : Node → Decoded SessionInfo
  | .array items closed => Node.opening remaining fun r => ofItems r items closed
  | .object members closed _ => Node.opening remaining fun r => do
    let draft ← Node.eachMember (Draft.take r) {} members closed
    draft.finish
  | n => n.reject "struct SessionInfo"

end SessionInfo

end Tenure
