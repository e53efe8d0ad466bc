import Tenure.Json.Node

/-!
# Scanning JSON text

`scan` reads the bytes of a text from left to right into a `Node` and the bytes that
follow it; where the text stops being JSON the node is cut off there and nothing
follows. Only the structure is checked here: what a number or a string is worth is
asked by the decoder that reads it.
-/

namespace Tenure.Json

/-- A sequence of bytes. -/
abbrev Bytes := List UInt8

/-- What a scan found, and the bytes behind it unless the text broke. -/
structure Scanned (α : Type) where
  value : α
  rest : Option Bytes

/-! ## Blanks, literals and numbers -/

/-- Space, tab, line feed and carriage return. -/
def isSpace (b : UInt8) : Bool := b == 0x20 || b == 0x09 || b == 0x0A || b == 0x0D

/-- The bytes without leading blanks. -/
def skipSpace (bs : Bytes) : Bytes := bs.dropWhile isSpace

/-- Whether a byte is a decimal digit. -/
def isDigitByte (b : UInt8) : Bool := 0x30 ≤ b && b ≤ 0x39

/-- Leading digits as characters, and the bytes behind them. -/
def takeDigits (bs : Bytes) : List Char × Bytes :=
  ((bs.takeWhile isDigitByte).map fun b => Char.ofNat b.toNat, bs.dropWhile isDigitByte)

/-- The fraction of a number, if there is one; none if its digits are missing. -/
def scanFraction : Bytes → Option (Option (List Char) × Bytes)
  | 0x2E :: bs =>
    match takeDigits bs with
    | ([], _) => none
    | (digits, rest) => some (some digits, rest)
  | bs => some (none, bs)

/-- The digits of an exponent behind its sign. -/
def scanExponentDigits (down : Bool) (bs : Bytes) : Option (Option (Bool × List Char) × Bytes) :=
  match takeDigits bs with
  | ([], _) => none
  | (digits, rest) => some (some (down, digits), rest)

/-- The exponent of a number, if there is one; none if its digits are missing. -/
def scanExponent : Bytes → Option (Option (Bool × List Char) × Bytes)
  | b :: bs =>
    if b == 0x65 || b == 0x45 then
      match bs with
      | 0x2B :: rest => scanExponentDigits false rest
      | 0x2D :: rest => scanExponentDigits true rest
      | rest => scanExponentDigits false rest
    else some (none, b :: bs)
  | [] => some (none, [])

/-- A number literal; a leading zero stands alone. -/
def scanLiteral (bs : Bytes) : Option (Literal × Bytes) := do
  let (negative, bs) := match bs with
    | 0x2D :: rest => (true, rest)
    | bs => (false, bs)
  let (whole, bs) := takeDigits bs
  if whole.isEmpty || (whole.head? == some '0' && 1 < whole.length) then none
  else
    let (fraction, bs) ← scanFraction bs
    let (exponent, bs) ← scanExponent bs
    return (⟨negative, whole, fraction, exponent⟩, bs)

/-! ## Strings -/

/-- The value of a hexadecimal digit. -/
def hexValue? (b : UInt8) : Option Nat :=
  if isDigitByte b then some (b.toNat - 0x30)
  else if 0x61 ≤ b && b ≤ 0x66 then some (b.toNat - 0x61 + 10)
  else if 0x41 ≤ b && b ≤ 0x46 then some (b.toNat - 0x41 + 10)
  else none

/-- The code unit of four hexadecimal digits. -/
def hexUnit? (a b c d : UInt8) : Option Nat := do
  return ((← hexValue? a) * 16 + (← hexValue? b)) * 256 + (← hexValue? c) * 16 + (← hexValue? d)

/-- The byte that a one-character escape stands for. -/
def shortEscape? (b : UInt8) : Option UInt8 :=
  match b with
  | 0x22 => some 0x22
  | 0x5C => some 0x5C
  | 0x2F => some 0x2F
  | 0x62 => some 0x08
  | 0x66 => some 0x0C
  | 0x6E => some 0x0A
  | 0x72 => some 0x0D
  | 0x74 => some 0x09
  | _ => none

/-- A string under construction: its bytes in reverse, a leading surrogate that waits for
its partner, and whether anything so far makes it unreadable. -/
structure Draft where
  reversed : Bytes
  leading : Option Nat
  unreadable : Bool

namespace Draft

/-- Nothing read yet. -/
def empty : Draft := ⟨[], none, false⟩

/-- A leading surrogate that found no partner spoils the string. -/
def settle (d : Draft) : Draft :=
  { d with leading := none, unreadable := d.unreadable || d.leading.isSome }

/-- Adds one byte. -/
def push (d : Draft) (b : UInt8) : Draft := { d.settle with reversed := b :: d.reversed }

/-- Adds a character by its UTF-8 bytes. -/
def pushChar (d : Draft) (c : Char) : Draft :=
  { d with reversed := (String.utf8EncodeChar c).reverse ++ d.reversed }

/-- Adds a code unit written as an escape. -/
def pushUnit (d : Draft) (u : Nat) : Draft :=
  if 0xDC00 ≤ u && u ≤ 0xDFFF then
    match d.leading with
    | some h =>
      let code := 0x10000 + (h - 0xD800) * 0x400 + (u - 0xDC00)
      { d with leading := none }.pushChar (Char.ofNat code)
    | none => { d with unreadable := true }
  else if 0xD800 ≤ u && u ≤ 0xDBFF then { d.settle with leading := some u }
  else d.settle.pushChar (Char.ofNat u)

/-- The text, unless it is unreadable. -/
def content (d : Draft) : Option String :=
  let done := d.settle
  if done.unreadable then none
  else String.fromUTF8? ⟨done.reversed.reverse.toArray⟩

end Draft

/-- The rest of a string behind its opening quote. -/
def scanText (d : Draft) : Bytes → Option (Option String × Bytes)
  | [] => none
  | 0x22 :: rest => some (d.content, rest)
  | 0x5C :: 0x75 :: a :: b :: c :: e :: rest =>
    match hexUnit? a b c e with
    | some u => scanText (d.pushUnit u) rest
    | none => none
  | 0x5C :: b :: rest =>
    match shortEscape? b with
    | some x => scanText (d.push x) rest
    | none => none
  | b :: rest => if b < 0x20 || b == 0x5C then none else scanText (d.push b) rest

/-! ## Values -/

/-- The bytes behind a word, if they begin with it. -/
def dropWord (word bs : Bytes) : Option Bytes :=
  if word.isPrefixOf bs then some (bs.drop word.length) else none

/-- A scan that broke off. -/
def brokenOff : Scanned Node := ⟨.broken, none⟩

/-- A word that stands for a value. -/
def scanWord (word : Bytes) (n : Node) (bs : Bytes) : Scanned Node :=
  match dropWord word bs with
  | some rest => ⟨n, some rest⟩
  | none => brokenOff

mutual
/-- One value. The fuel bounds the number of values and separators still to come. -/
def scanValue : Nat → Bytes → Scanned Node
  | 0, _ => brokenOff
  | fuel + 1, bs =>
    match skipSpace bs with
    | [] => brokenOff
    | b :: rest =>
      if b == 0x6E then scanWord [0x75, 0x6C, 0x6C] .null rest
      else if b == 0x74 then scanWord [0x72, 0x75, 0x65] (.bool true) rest
      else if b == 0x66 then scanWord [0x61, 0x6C, 0x73, 0x65] (.bool false) rest
      else if b == 0x2D || isDigitByte b then
        match scanLiteral (b :: rest) with
        | some (l, rest) => ⟨.number l, some rest⟩
        | none => brokenOff
      else if b == 0x22 then
        match scanText .empty rest with
        | some (content, rest) => ⟨.text content, some rest⟩
        | none => brokenOff
      else if b == 0x5B then
        match skipSpace rest with
        | 0x5D :: rest => ⟨.array [] true, some rest⟩
        | _ =>
          let s := scanItems fuel rest
          ⟨.array s.value s.rest.isSome, s.rest⟩
      else if b == 0x7B then
        match skipSpace rest with
        | 0x7D :: rest => ⟨.object [] true none, some rest⟩
        | _ =>
          let s := scanMembers fuel rest
          ⟨.object s.value.1 s.rest.isSome s.value.2, s.rest⟩
      else brokenOff

/-- The items of an array that is not empty, through its closing bracket. -/
def scanItems : Nat → Bytes → Scanned (List Node)
  | 0, _ => ⟨[], none⟩
  | fuel + 1, bs =>
    let item := scanValue fuel bs
    match item.rest with
    | none => ⟨[item.value], none⟩
    | some rest =>
      match skipSpace rest with
      | 0x5D :: rest => ⟨[item.value], some rest⟩
      | 0x2C :: rest =>
        -- a closing bracket behind a comma ends the text, not the array
        match skipSpace rest with
        | 0x5D :: _ => ⟨[item.value], none⟩
        | _ =>
          let s := scanItems fuel rest
          ⟨item.value :: s.value, s.rest⟩
      | _ => ⟨[item.value], none⟩

/-- The members of an object that is not empty, through its closing brace. -/
def scanMembers : Nat → Bytes → Scanned (List (Option String × Node) × Option Node)
  | 0, _ => ⟨([], none), none⟩
  | fuel + 1, bs =>
    match skipSpace bs with
    | 0x22 :: rest =>
      match scanText .empty rest with
      | none => ⟨([], none), none⟩
      | some (name, rest) =>
        match skipSpace rest with
        | 0x3A :: rest =>
          let item := scanValue fuel rest
          match item.rest with
          | none => ⟨([(name, item.value)], none), none⟩
          | some rest =>
            match skipSpace rest with
            | 0x7D :: rest => ⟨([(name, item.value)], none), some rest⟩
            | 0x2C :: rest =>
              let s := scanMembers fuel rest
              ⟨((name, item.value) :: s.value.1, s.value.2), s.rest⟩
            | _ => ⟨([(name, item.value)], none), none⟩
        | _ => ⟨([(name, .broken)], none), none⟩
    | rest => ⟨([], some (scanValue fuel rest).value), none⟩
end

/-- The first value of a text, and what follows it. -/
def scan (bs : Bytes) : Scanned Node := scanValue (2 * bs.length + 2) bs

/-- Decodes a whole text: the value, then nothing but blanks. -/
def decode {α : Type} (decoder : Nat → Node → Decoded α) (bs : Bytes) : Decoded α := do
  let s := scan bs
  let a ← decoder nestingLimit s.value
  match s.rest with
  | some rest => if (skipSpace rest).isEmpty then return a else malformed
  | none => malformed

end Tenure.Json
