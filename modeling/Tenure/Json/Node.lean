import Tenure.Json.Number

/-!
# JSON documents, as far as they go

A `Node` is what reading a text from left to right has found: a value, or the part of
one that stands before the first place where the text stops being JSON. Decoders walk
a node in the order of the text, so a value of the wrong shape is reported before a
fault of the text that follows it, and after one that precedes it.

* `Node.broken` stands where no value could be read;
* an array or object that the text cuts off is not `closed`, and nothing follows it;
* `text none` is a string that ends properly but holds no text (a lone surrogate or
  bytes that are not UTF-8): harmless when skipped, a fault when read.
-/

namespace Tenure.Json

/-- The part of a document that can be read. -/
inductive Node
  | null
  | bool (b : Bool)
  | number (l : Literal)
  | text (content : Option String)
  | array (items : List Node) (closed : Bool)
  /-- Members in the order of the text; `stray` is what stands in place of a name. -/
  | object (members : List (Option String × Node)) (closed : Bool) (stray : Option Node)
  | broken

instance : Inhabited Node := ⟨.broken⟩

/-- A complete JSON value. -/
inductive Value
  | null
  | bool (b : Bool)
  | number (n : Number)
  | text (s : String)
  | array (items : List Value)
  | object (members : List (String × Value))

instance : Inhabited Value := ⟨.null⟩

/-! ## What decoding can meet -/

/-- What was found where something else was expected. -/
inductive Found
  | null
  | bool (b : Bool)
  | integer (n : Int)
  | real (x : Numeric.Binary64)
  | text (s : String)
  | sequence
  | map
deriving DecidableEq

/-- A value that is JSON but of the wrong shape. -/
inductive Misfit
  | invalidType (found : Found) (expected : String)
  | invalidValue (found : Found) (expected : String)
  | invalidLength (length : Nat) (expected : String)
  | missingField (name : String)
  | duplicateField (name : String)
  | unknownField (name : String) (expected : List String)
  | unknownVariant (name : String) (expected : List String)
  | invalidDuration (text : String)
  | neitherNumberNorText
  | negativeSeconds
  | secondsOutOfRange
  | durationOverflow
deriving DecidableEq

/-- Why a text was not decoded: it is not JSON, or JSON of the wrong shape. -/
inductive DecodeError
  | malformed
  | misfit (m : Misfit)
deriving DecidableEq

/-- The outcome of decoding. -/
abbrev Decoded (α : Type) := Except DecodeError α

/-- The error of a value that has the wrong shape. -/
def unfit {α : Type} (m : Misfit) : Decoded α := .error (.misfit m)

/-- The error of a text that stops being JSON. -/
def malformed {α : Type} : Decoded α := .error .malformed

/-- Fills a field that must not have been filled before. -/
def fillOnce {α : Type} (name : String) (old : Option α) (value : Decoded α) :
    Decoded (Option α) := do
  if old.isSome then unfit (.duplicateField name) else return some (← value)

/-- How many containers may be open at once. -/
def nestingLimit : Nat := 127

namespace Node

/-- What the node shows itself to be at its first character. -/
def found : Node → Decoded Found
  | null => .ok .null
  | bool b => .ok (.bool b)
  | number l =>
    match l.value with
    | some (.natural n) => .ok (.integer n)
    | some (.negative n) => .ok (.integer (-(n : Int)))
    | some (.real x) => .ok (.real x)
    | none => malformed
  | text (some s) => .ok (.text s)
  | text none => malformed
  | array .. => .ok .sequence
  | object .. => .ok .map
  | broken => malformed

/-- The error of finding this node where something else was expected. -/
def reject {α : Type} (n : Node) (expected : String) : Decoded α := do
  unfit (.invalidType (← n.found) expected)

/-- Passes over a value of any shape, complaining only if the text breaks inside it. -/
def skip : Node → Decoded Unit
  | array _ closed => if closed then .ok () else malformed
  | object _ closed _ => if closed then .ok () else malformed
  | broken => malformed
  | _ => .ok ()

/-- A string. -/
def asText : Node → Decoded String
  | text (some s) => .ok s
  | text none => malformed
  | n => n.reject "a string"

/-- A truth value. -/
def asBool : Node → Decoded Bool
  | bool b => .ok b
  | n => n.reject "a boolean"

/-- A natural number below `2^bits`. -/
def asNatural (bits : Nat) (n : Node) : Decoded Nat :=
  let expected := "u" ++ String.ofList (Numeric.decimalDigits bits)
  match n with
  | number l =>
    match l.value with
    | some (.natural k) =>
      if k < Nat.pow 2 bits then .ok k else unfit (.invalidValue (.integer k) expected)
    | some (.negative k) => unfit (.invalidValue (.integer (-(k : Int))) expected)
    | _ => n.reject expected
  | _ => n.reject expected

/-- Decodes the next item of an array; none at the end of a closed one. -/
def nextItem {α : Type} (closed : Bool) (decode : Node → Decoded α) :
    List Node → Decoded (Option α × List Node)
  | [] => if closed then .ok (none, []) else malformed
  | n :: rest => do return (some (← decode n), rest)

/-- The end of an array: nothing may be left over. -/
def endItems (closed : Bool) : List Node → Decoded Unit
  | [] => if closed then .ok () else malformed
  | _ :: _ => malformed

/-- All items of an array that is a list of one kind. -/
def eachItem {α : Type} (decode : Node → Decoded α) (items : List Node) (closed : Bool) :
    Decoded (List α) := do
  let values ← items.mapM decode
  if closed then return values else malformed

/-- All members of an object in order, folded into a state. -/
def eachMember {σ : Type} (step : σ → String → Node → Decoded σ) (start : σ)
    (members : List (Option String × Node)) (closed : Bool) : Decoded σ := do
  let state ← members.foldlM (fun s m =>
    match m.1 with
    | some name => step s name m.2
    | none => malformed) start
  if closed then return state else malformed

/-- Opens a container: one level less remains inside. -/
def opening {α : Type} (remaining : Nat) (inside : Nat → Decoded α) : Decoded α :=
  match remaining with
  | 0 => malformed
  | r + 1 => inside r

/-- A list whose items are all of one kind. -/
def asList {α : Type} (decode : Nat → Node → Decoded α) (remaining : Nat) : Node → Decoded (List α)
  | array items closed => opening remaining fun r => eachItem (decode r) items closed
  | n => n.reject "a sequence"

/-- A value of any shape; of two members with one name the later one counts. -/
def asValue : Nat → Node → Decoded Value
  | _, null => .ok .null
  | _, bool b => .ok (.bool b)
  | _, number l =>
    match l.value with
    | some v => .ok (.number v)
    | none => malformed
  | _, text (some s) => .ok (.text s)
  | _, text none => malformed
  | 0, array .. => malformed
  | 0, object .. => malformed
  | remaining + 1, array items closed => do
    return .array (← eachItem (asValue remaining) items closed)
  | remaining + 1, object members closed _ => do
    let entries ← eachMember (fun entries name n => do
      let v ← asValue remaining n
      return entries.filter (·.1 != name) ++ [(name, v)]) [] members closed
    return .object entries
  | _, broken => malformed

end Node

/-! ## Values as nodes -/

/-- The literal of a number. A double is written with a fraction or an exponent. -/
def Number.literal : Number → Literal
  | .natural n => .ofNat n
  | .negative n => ⟨true, Numeric.decimalDigits n, none, none⟩
  | .real x =>
    let d := (Numeric.Decimal.shortest .even (match x with | .finite _ u => u | _ => 0)).strip 20
    ⟨x.negative, Numeric.decimalDigits d.digits, none,
      some (d.exponent < 0, Numeric.decimalDigits d.exponent.natAbs)⟩

mutual
/-- The node of a complete value. -/
def Value.node : Value → Node
  | .null => .null
  | .bool b => .bool b
  | .number n => .number n.literal
  | .text s => .text (some s)
  | .array items => .array (Value.nodes items) true
  | .object members => .object (Value.memberNodes members) true none

/-- The nodes of a list of values. -/
def Value.nodes : List Value → List Node
  | [] => []
  | v :: vs => v.node :: Value.nodes vs

/-- The nodes of a list of members. -/
def Value.memberNodes : List (String × Value) → List (Option String × Node)
  | [] => []
  | (name, v) :: rest => (some name, v.node) :: Value.memberNodes rest
end

end Tenure.Json
