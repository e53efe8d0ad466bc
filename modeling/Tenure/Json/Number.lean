import Tenure.Numeric.Decimal

/-!
# JSON numbers

A number literal is a sign, digits before and after the point, and an exponent. Its
value is a natural number or a negative integer where the literal is a whole number of
64 bits, and a double otherwise.

The double of a literal is computed in two roundings, not one: the leading digits that
fit 64 bits are rounded to a double, which is then multiplied or divided once by a
correctly rounded power of ten (`Literal.scaled`). Further digits count only by their
places. A magnitude that overflows is no number at all.
-/

namespace Tenure.Json

open Tenure.Numeric

/-- A number as it is written. -/
structure Literal where
  negative : Bool
  /-- digits before the point -/
  whole : List Char
  /-- digits after the point, if there is one -/
  fraction : Option (List Char)
  /-- sign and digits of the exponent, if there is one -/
  exponent : Option (Bool × List Char)
deriving DecidableEq

/-- The value of a number. -/
inductive Number
  | natural (n : Nat)
  | negative (n : Nat)
  | real (x : Binary64)
deriving DecidableEq

/-- The literal of a natural number. -/
def Literal.ofNat (n : Nat) : Literal := ⟨false, decimalDigits n, none, none⟩

/-- Whole numbers below this bound fit a word. -/
def wordBound : Nat := Nat.pow 2 64

/-- Negative whole numbers of a larger magnitude do not fit a signed word. -/
def negativeBound : Nat := Nat.pow 2 63

/-- The digits up to the first one that no longer fits a word, as their number, and how
many digits were left over. -/
def leadingWord (n : Nat) : List Char → Nat × Nat
  | [] => (n, 0)
  | c :: cs =>
    let next := 10 * n + digitValue c
    if next < wordBound then leadingWord next cs else (n, cs.length + 1)

/-- The correctly rounded powers of ten. -/
def tenTo (e : Nat) : Binary64 := .ofNat (Nat.pow 10 e)

/-- A double scaled by `10^exponent` with one rounding, after dividing away whole
factors of `10^308` where the exponent is below that; none if it overflows. The fuel
bounds those divisions. -/
def scaleByTen (fuel : Nat) (x : Binary64) (exponent : Int) : Option Binary64 :=
  if exponent.natAbs ≤ 308 then
    if 0 ≤ exponent then
      match x * tenTo exponent.toNat with
      | .infinite _ => none
      | y => some y
    else some (x / tenTo exponent.natAbs)
  else if x = .zero then some x
  else if 0 ≤ exponent then none
  else match fuel with
    | 0 => some .zero
    | fuel + 1 => scaleByTen fuel (x / tenTo 308) (exponent + 308)

/-- Exponents from here on are not counted any more. -/
def exponentCap : Nat := Nat.pow 2 31

/-- The magnitude of a literal as a double; none if it overflows. -/
def Literal.scaled (l : Literal) : Option Binary64 :=
  let (whole, dropped) := leadingWord 0 l.whole
  let fraction := l.fraction.getD []
  let (significand, unread) := leadingWord whole fraction
  let point : Int := (dropped : Int) - ((fraction.length - unread : Nat) : Int)
  match l.exponent with
  | none => scaleByTen 8 (.ofNat significand) point
  | some (down, digits) =>
    let e := digitsValue digits
    if exponentCap ≤ e then
      -- zero stays zero, anything else vanishes or overflows
      if significand ≠ 0 ∧ ¬ down then none else some .zero
    else scaleByTen 8 (.ofNat significand) (if down then point - (e : Int) else point + (e : Int))

/-- The value of a literal; none if its magnitude overflows. -/
def Literal.value (l : Literal) : Option Number :=
  let signed (x : Binary64) : Number := .real (if l.negative then -x else x)
  match l.fraction, l.exponent, leadingWord 0 l.whole with
  | none, none, (n, 0) =>
    if l.negative then
      if 0 < n ∧ n ≤ negativeBound then some (.negative n) else some (signed (.ofNat n))
    else some (.natural n)
  | _, _, _ => l.scaled.map signed

/-! ## Writing -/

/-- A double with exponent notation outside `10^-5 … 10^16`, and a point inside. Of two
shortest decimals that are equally near, the even one is written. -/
def realText (x : Binary64) : String :=
  match x with
  | .finite s u =>
    if u = 0 then x.pointedText .even
    else
      let d := (Decimal.shortest .even u).strip 20
      let digits := decimalDigits d.digits
      let lead := d.exponent + digits.length - 1
      if -5 ≤ lead ∧ lead < 16 then x.pointedText .even
      else
        let power := decimalDigits lead.natAbs
        let mantissa := digits.take 1 ++ (if digits.length = 1 then [] else '.' :: digits.drop 1)
        let mark := ['e', if lead < 0 then '-' else '+']
        String.ofList ((if s then ['-'] else []) ++ mantissa ++ mark
          ++ List.replicate (2 - power.length) '0' ++ power)
  | _ => "null"

/-- The text of a number. -/
def Number.text : Number → String
  | .natural n => String.ofList (decimalDigits n)
  | .negative n => String.ofList ('-' :: decimalDigits n)
  | .real x => realText x

end Tenure.Json
