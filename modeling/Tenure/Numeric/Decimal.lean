import Tenure.Numeric.Binary64

/-!
# Decimal text of doubles

Reading a decimal is one exact fraction rounded once (`ofDigits`). Writing picks
the **shortest** decimal: for 1, 2, … 17 significant digits the two neighbours of
the value on that decimal grid are tested against the interval of reals that read
back as the value; the first grid with a hit wins, of two hits the nearer, and a
`Tie` decides between two that are equally near.

`Decimal.positional` never uses an exponent: the digits are padded with zeros on
either side of the point as far as needed.
-/

namespace Tenure.Numeric

/-- A positive decimal `digits · 10^exponent`. -/
structure Decimal where
  digits : Nat
  exponent : Int
deriving DecidableEq

/-! ## Digits -/

/-- The value of a decimal digit. -/
def digitValue (c : Char) : Nat := c.toNat - '0'.toNat

/-- The natural number that a list of decimal digits writes. -/
def digitsValue (cs : List Char) : Nat := cs.foldl (fun n c => 10 * n + digitValue c) 0

/-- The decimal digits of a natural number, most significant first. -/
def decimalDigits (n : Nat) : List Char := Nat.toDigits 10 n

/-- The double that reads `whole.fraction`, exactly and then rounded once. -/
def Binary64.ofDigits (whole fraction : List Char) : Binary64 :=
  .ofRatio false (digitsValue (whole ++ fraction)) (Nat.pow 10 fraction.length)

/-! ## The interval that reads back -/

/-- Reals, as fractions over `2` units, that round to a magnitude: the ends belong to
it when the significand is even. Below a power of two the grid is twice as fine. -/
structure ReadBack where
  low : Nat
  high : Nat
  closed : Bool
deriving DecidableEq

/-- The interval of a magnitude of `units > 0`, in quarters of a unit. -/
def ReadBack.ofUnits (units : Nat) : ReadBack :=
  let k := gridBits units
  let step := Nat.pow 2 k
  let significand := units / step
  let below := if significand = Nat.pow 2 52 ∧ 0 < k then step else 2 * step
  { low := 4 * units - below, high := 4 * units + 2 * step, closed := significand % 2 = 0 }

/-- Whether the fraction `num / den`, in quarters of a unit, lies in the interval. -/
def ReadBack.contains (i : ReadBack) (num den : Nat) : Bool :=
  if i.closed then i.low * den ≤ num && num ≤ i.high * den
  else i.low * den < num && num < i.high * den

/-! ## The shortest decimal -/

/-- A power of ten as a numerator and a denominator. -/
def tenPower (e : Int) : Nat × Nat :=
  if 0 ≤ e then (Nat.pow 10 e.toNat, 1) else (1, Nat.pow 10 (-e).toNat)

/-- The number of decimal digits before the point, minus one, of `units > 0`:
the `e` with `10^e ≤ value < 10^(e+1)`. -/
def decimalExponent (units : Nat) : Int :=
  if unitsPerOne ≤ units then
    ((decimalDigits (units / unitsPerOne)).length : Int) - 1
  else
    -- the least number of decimal places that brings the value to one or more
    let places := (List.range 330).find? fun p => unitsPerOne ≤ units * Nat.pow 10 p
    Int.negOfNat (places.getD 330)

/-- Which of two equally near neighbours is taken. -/
inductive Tie
  | upper
  /-- The one whose last digit is even. -/
  | even
deriving DecidableEq

/-- Whether the lower one of two equally near neighbours is taken. -/
def Tie.takesLower (tie : Tie) (lower : Nat) : Bool :=
  match tie with
  | upper => false
  | even => lower % 2 == 0

/-- The better of the two neighbours of `units` on the grid of multiples of `10^e`
that read back, if one does. -/
def neighbourOnGrid (tie : Tie) (units : Nat) (e : Int) : Option Decimal :=
  let (num, den) := tenPower e
  -- the value over the grid step, as the fraction `scaled / size`
  let scaled := units * den
  let size := unitsPerOne * num
  let lower := scaled / size
  let upper := lower + 1
  let interval := ReadBack.ofUnits units
  let reads (m : Nat) : Bool := interval.contains (4 * m * num * unitsPerOne) den
  let rest := scaled % size
  let lowerWins := 2 * rest < size || (2 * rest == size && tie.takesLower lower)
  match reads lower && 0 < lower, reads upper with
  | true, true => some ⟨if lowerWins then lower else upper, e⟩
  | true, false => some ⟨lower, e⟩
  | false, true => some ⟨upper, e⟩
  | false, false => none

/-- The shortest decimal that reads back as a magnitude of `units > 0`. -/
def Decimal.shortest (tie : Tie) (units : Nat) : Decimal :=
  let e := decimalExponent units
  ((List.range 17).findSome? fun n => neighbourOnGrid tie units (e - (n : Nat))).getD ⟨units, 0⟩

/-- Drops trailing zeros of the digits into the exponent, at most `fuel` of them. -/
def Decimal.strip : Nat → Decimal → Decimal
  | 0, d => d
  | fuel + 1, d =>
    if d.digits ≠ 0 ∧ d.digits % 10 = 0 then strip fuel ⟨d.digits / 10, d.exponent + 1⟩ else d

/-- A decimal written without an exponent. -/
def Decimal.positional (d : Decimal) : List Char :=
  let digits := decimalDigits d.digits
  if 0 ≤ d.exponent then digits ++ List.replicate d.exponent.toNat '0'
  else
    let places := (-d.exponent).toNat
    let padded := List.replicate (places + 1 - digits.length) '0' ++ digits
    padded.take (padded.length - places) ++ '.' :: padded.drop (padded.length - places)

/-- The magnitude of `units` as its shortest decimal, without an exponent. -/
def positionalText (tie : Tie) (units : Nat) : List Char :=
  if units = 0 then ['0'] else ((Decimal.shortest tie units).strip 20).positional

/-- The text of a double, without an exponent and without a point when it is whole. -/
def Binary64.text (tie : Tie) : Binary64 → String
  | .finite s u => String.ofList ((if s then ['-'] else []) ++ positionalText tie u)
  | .infinite s => if s then "-inf" else "inf"
  | .nan _ _ => "NaN"

/-- The text of a double, a whole one being written with `.0`. -/
def Binary64.pointedText (tie : Tie) (x : Binary64) : String :=
  match x with
  | .finite _ u => if u % unitsPerOne = 0 then x.text tie ++ ".0" else x.text tie
  | _ => x.text tie

end Tenure.Numeric
