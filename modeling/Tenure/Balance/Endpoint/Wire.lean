import Tenure.Balance.Endpoint
import Tenure.Duration.Parts

/-!
# Endpoints as JSON

An endpoint is written as an object of its six fields. All six are required when one
is read, in any order and among members of other names, or as an array in the order of
the fields. Of two metadata entries with one key the later one counts.
-/

namespace Tenure

open Json

namespace Metadata

/-- The entries as an object. -/
def value (m : Metadata) : Value := .object (m.entries.map fun e => (e.1, .text e.2))

/-- Takes in one member. -/
def take (m : Metadata) (key : String) (n : Node) : Decoded Metadata :=
  n.asText.map fun value => m.insert key value

/-- Metadata in a document. -/
def ofNode (remaining : Nat) : Node → Decoded Metadata
  | .object members closed _ =>
    Node.opening remaining fun _ => Node.eachMember take empty members closed
  | n => n.reject "a map"

end Metadata

namespace Endpoint

/-- The endpoint as an object. -/
def value (e : Endpoint) : Value :=
  .object [("id", .text e.id), ("node", .text e.node), ("addr", .text e.addr),
    ("tags", .array (e.tags.map .text)), ("meta", e.metadata.value), ("rtt", e.rtt.partsValue)]

/-- The fields met so far. -/
structure Draft where
  id : Option String := none
  node : Option String := none
  addr : Option String := none
  tags : Option (List String) := none
  metadata : Option Metadata := none
  rtt : Option Duration := none

/-- A list of tags. -/
def tagsOfNode : Nat → Node → Decoded (List String) := Node.asList fun _ => Node.asText

/-- Takes in one member. -/
def Draft.take (remaining : Nat) (d : Draft) (name : String) (n : Node) : Decoded Draft := do
  match name with
  | "id" => return { d with id := ← fillOnce name d.id n.asText }
  | "node" => return { d with node := ← fillOnce name d.node n.asText }
  | "addr" => return { d with addr := ← fillOnce name d.addr n.asText }
  | "tags" => return { d with tags := ← fillOnce name d.tags (tagsOfNode remaining n) }
  | "meta" => return { d with metadata := ← fillOnce name d.metadata (Metadata.ofNode remaining n) }
  | "rtt" => return { d with rtt := ← fillOnce name d.rtt (Duration.ofPartsNode remaining n) }
  | _ => n.skip; return d

/-- A field that has to be there. -/
def required {α : Type} (name : String) : Option α → Decoded α
  | some a => .ok a
  | none => unfit (.missingField name)

/-- The endpoint of all six fields; the first one that is missing is reported. -/
def Draft.finish (d : Draft) : Decoded Endpoint := do
  return {
    id := ← required "id" d.id
    node := ← required "node" d.node
    addr := ← required "addr" d.addr
    tags := ← required "tags" d.tags
    metadata := ← required "meta" d.metadata
    rtt := ← required "rtt" d.rtt }

/-- An item that has to be there, `place` others standing before it. -/
def itemAt {α : Type} (place : Nat) (closed : Bool) (decode : Node → Decoded α)
    (items : List Node) : Decoded (α × List Node) := do
  let (item, rest) ← Node.nextItem closed decode items
  match item with
  | some a => return (a, rest)
  | none => unfit (.invalidLength place "struct Endpoint with 6 elements")

/-- The endpoint of an array of the fields in order. -/
def ofItems (remaining : Nat) (items : List Node) (closed : Bool) : Decoded Endpoint := do
  let (id, items) ← itemAt 0 closed Node.asText items
  let (node, items) ← itemAt 1 closed Node.asText items
  let (addr, items) ← itemAt 2 closed Node.asText items
  let (tags, items) ← itemAt 3 closed (tagsOfNode remaining) items
  let (metadata, items) ← itemAt 4 closed (Metadata.ofNode remaining) items
  let (rtt, items) ← itemAt 5 closed (Duration.ofPartsNode remaining) items
  Node.endItems closed items
  return { id, node, addr, tags, metadata, rtt }

/-- An endpoint in a document. -/
def ofNode (remaining : Nat) : Node → Decoded Endpoint
  | .array items closed => Node.opening remaining fun r => ofItems r items closed
  | .object members closed _ => Node.opening remaining fun r => do
    let draft ← Node.eachMember (Draft.take r) {} members closed
    draft.finish
  | n => n.reject "struct Endpoint"

end Endpoint

end Tenure
