/-!
# Percent encoding

A character that a component may not carry as it is stands as the bytes of its UTF-8
form, each a percent sign and two hexadecimal digits. Which characters are kept is a
parameter: `Kept` is a predicate on ASCII characters, all others are always encoded.
-/

namespace Tenure.Url

/-- The upper-case hexadecimal digit of a number below 16. -/
def hexDigit (n : Nat) : Char :=
  if n < 10 then Char.ofNat ('0'.toNat + n) else Char.ofNat ('A'.toNat + (n - 10))

/-- A byte as a percent sign and two digits. -/
def percentByte (b : UInt8) : List Char := ['%', hexDigit (b.toNat / 16), hexDigit (b.toNat % 16)]

/-- Whether a character lies in ASCII. -/
def isAscii (c : Char) : Bool := c.toNat < 128

/-- A character that is kept, or its bytes. -/
def encodeChar (kept : Char → Bool) (c : Char) : List Char :=
  if isAscii c && kept c then [c] else (String.utf8EncodeChar c).flatMap percentByte

/-- A text with every character kept or encoded. -/
def encodeChars (kept : Char → Bool) (cs : List Char) : List Char := cs.flatMap (encodeChar kept)

/-- The value of a hexadecimal digit of either case. -/
def hexValue? (c : Char) : Option Nat :=
  if '0' ≤ c && c ≤ '9' then some (c.toNat - '0'.toNat)
  else if 'a' ≤ c && c ≤ 'f' then some (c.toNat - 'a'.toNat + 10)
  else if 'A' ≤ c && c ≤ 'F' then some (c.toNat - 'A'.toNat + 10)
  else none

/-- The bytes of an encoded text: a percent sign with two digits is a byte, anything else
stands for its own UTF-8 form. -/
def decodeBytes : List Char → List UInt8
  | '%' :: a :: b :: rest =>
    match hexValue? a, hexValue? b with
    | some x, some y => UInt8.ofNat (16 * x + y) :: decodeBytes rest
    | _, _ => String.utf8EncodeChar '%' ++ decodeBytes (a :: b :: rest)
  | c :: rest => String.utf8EncodeChar c ++ decodeBytes rest
  | [] => []

/-- The text of an encoded component, if its bytes are UTF-8. -/
def decodeText? (cs : List Char) : Option String := String.fromUTF8? ⟨(decodeBytes cs).toArray⟩

/-! ## Character sets -/

/-- Controls and delete. -/
def isControl (c : Char) : Bool := c.toNat < 0x20 || c.toNat == 0x7F

/-- What a path keeps. -/
def keptInPath (c : Char) : Bool :=
  !(isControl c || c == ' ' || c == '"' || c == '<' || c == '>' || c == '`'
    || c == '#' || c == '?' || c == '\x7b' || c == '\x7d')

/-- What one segment of a path keeps: neither separators nor a percent sign. -/
def keptInSegment (c : Char) : Bool := keptInPath c && !(c == '/' || c == '%' || c == '\\')

/-- What the query of a web address keeps. -/
def keptInQuery (c : Char) : Bool :=
  !(isControl c || c == ' ' || c == '"' || c == '#' || c == '<' || c == '>' || c == '\'')

end Tenure.Url
