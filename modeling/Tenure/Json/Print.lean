import Tenure.Json.Node

/-!
# Printing JSON

Compact text of a value: no blanks, members in their order. In a string the quote, the
backslash and the controls are escaped and everything else stands as it is.
-/

namespace Tenure.Json

/-- One character as it stands inside a string. -/
def escapedChar (c : Char) : List Char :=
  match c with
  | '"' => ['\\', '"']
  | '\\' => ['\\', '\\']
  | '\x08' => ['\\', 'b']
  | '\x0c' => ['\\', 'f']
  | '\n' => ['\\', 'n']
  | '\r' => ['\\', 'r']
  | '\t' => ['\\', 't']
  | c =>
    if c.toNat < 0x20 then
      let digits := Nat.toDigits 16 c.toNat
      ['\\', 'u'] ++ List.replicate (4 - digits.length) '0' ++ digits
    else [c]

/-- A string literal. -/
def stringChars (s : String) : List Char := '"' :: s.toList.flatMap escapedChar ++ ['"']

mutual
/-- The characters of a value's text. -/
def Value.chars : Value → List Char
  | .null => ['n', 'u', 'l', 'l']
  | .bool true => ['t', 'r', 'u', 'e']
  | .bool false => ['f', 'a', 'l', 's', 'e']
  | .number n => n.text.toList
  | .text s => stringChars s
  | .array items => '[' :: Value.itemChars items ++ [']']
  | .object members => '\x7b' :: Value.memberChars members ++ ['\x7d']

/-- The items of an array, separated by commas. -/
def Value.itemChars : List Value → List Char
  | [] => []
  | [v] => v.chars
  | v :: vs => v.chars ++ ',' :: Value.itemChars vs

/-- The members of an object, separated by commas. -/
def Value.memberChars : List (String × Value) → List Char
  | [] => []
  | [(name, v)] => stringChars name ++ ':' :: v.chars
  | (name, v) :: rest => stringChars name ++ ':' :: v.chars ++ ',' :: Value.memberChars rest
end

/-- The compact text of a value. -/
def Value.print (v : Value) : String := String.ofList v.chars

end Tenure.Json
