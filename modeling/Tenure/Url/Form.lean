import Tenure.Text.Pieces
import Tenure.Url.Percent

/-!
# Form encoding

A list of named values as one text: pairs joined by `&`, name and value by `=`, a space
as `+`, letters, digits and `* - . _` as they are, and all else percent-encoded. A value
that is empty is left out together with its `=`.

`encodePairs` writes the form and `decodePairs?` reads it.
-/

namespace Tenure.Url.Form

/-- What a name or a value keeps. -/
def kept (c : Char) : Bool := c.isAlphanum || c == '*' || c == '-' || c == '.' || c == '_'

/-- One character of a name or a value. -/
def encodeChar (c : Char) : List Char := if c = ' ' then ['+'] else Url.encodeChar kept c

/-- A name or a value. -/
def encode (s : String) : List Char := s.toList.flatMap encodeChar

/-- One pair; an empty value leaves the bare name. -/
def encodePair (p : String × String) : List Char :=
  encode p.1 ++ (if p.2 = "" then [] else '=' :: encode p.2)

/-- Pairs joined by `&`. -/
def encodePairs : List (String × String) → List Char
  | [] => []
  | [p] => encodePair p
  | p :: rest => encodePair p ++ '&' :: encodePairs rest

/-! ## Reading -/

/-- A name or a value, if it is one. -/
def decode? (cs : List Char) : Option String :=
  decodeText? (cs.map fun c => if c = '+' then ' ' else c)

/-- One pair; without a `=` the value is empty. -/
def decodePair? (cs : List Char) : Option (String × String) := do
  let name ← decode? (cs.takeWhile (· != '='))
  let value ← decode? ((cs.dropWhile (· != '=')).drop 1)
  return (name, value)

/-- The pairs of a form; an empty piece holds none. -/
def decodePairs? (cs : List Char) : Option (List (String × String)) :=
  ((Text.pieces '&' cs).filter (!·.isEmpty)).mapM decodePair?

end Tenure.Url.Form
