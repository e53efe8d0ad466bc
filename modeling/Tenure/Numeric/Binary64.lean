/-!
# Binary64 arithmetic, exactly

A finite double is a sign and a whole number of *units*, one unit being
`2^-1074`, the least positive double. On that scale every finite double is a
natural number, the order of magnitudes is the order of naturals, and each
operation is an exact computation on naturals followed by one rounding:

* **grid**: a magnitude with whole part `q` keeps its 53 leading bits, so it
  lies on the multiples of `2 ^ gridBits q`;
* **rounding**: `roundUnits num den` is the point of the grid nearest to
  `num / den`, a tie going to the even multiple;
* **range**: a magnitude of `2^1024` or more is infinite.

`Binary64.rank` is the total order of the standard: negative values before
positive ones, negative zero before positive zero, NaNs outermost and by their fraction
fields among each other.
-/

namespace Tenure.Numeric

/-! ## Rounding on the grid of 53-bit magnitudes -/

/-- The natural number nearest to `num / den`, a tie going to the even one. -/
def roundHalfEven (num den : Nat) : Nat :=
  let q := num / den
  let r := num % den
  if 2 * r < den then q
  else if den < 2 * r then q + 1
  else q + q % 2

/-- The number of low bits that a magnitude with whole part `q` has to give up. -/
def gridBits (q : Nat) : Nat := (q.log2 + 1) - 53

/-- The grid point nearest to `num / den` units. -/
def roundUnits (num den : Nat) : Nat :=
  let k := gridBits (num / den)
  roundHalfEven num (den * Nat.pow 2 k) * Nat.pow 2 k

/-- The number of units in one. -/
def unitsPerOne : Nat := Nat.pow 2 1074

/-- The first magnitude, in units, that is too large to be finite. -/
def overflowUnits : Nat := Nat.pow 2 2098

/-- A magnitude, in units, that a finite double can have. -/
def Representable (units : Nat) : Prop :=
  units < overflowUnits ∧ units % Nat.pow 2 (gridBits units) = 0

instance (units : Nat) : Decidable (Representable units) :=
  inferInstanceAs (Decidable (_ ∧ _))

/-! ## The values -/

/-- The fraction field of the NaN that operations make up. -/
def quietFraction : Nat := Nat.pow 2 51

/-- A double: finite values as a sign and a magnitude in units of `2^-1074`, and NaNs with
their fraction field, which is not zero. -/
inductive Binary64
  | finite (negative : Bool) (units : Nat)
  | infinite (negative : Bool)
  | nan (negative : Bool) (fraction : Nat := quietFraction)
deriving DecidableEq

namespace Binary64

/-- Positive zero. -/
def zero : Binary64 := finite false 0

instance : Inhabited Binary64 := ⟨zero⟩

/-- The largest finite double. -/
def largest : Binary64 := finite false ((Nat.pow 2 53 - 1) * Nat.pow 2 2045)

/-- A magnitude of `num / den` units after rounding; infinite from `2^1024` on. -/
def ofUnitsRatio (negative : Bool) (num den : Nat) : Binary64 :=
  let units := roundUnits num den
  if units < overflowUnits then finite negative units else infinite negative

/-- The double nearest to the fraction `num / den`. -/
def ofRatio (negative : Bool) (num den : Nat) : Binary64 :=
  ofUnitsRatio negative (num * unitsPerOne) den

/-- The double nearest to a natural number. -/
def ofNat (n : Nat) : Binary64 := ofRatio false n 1

/-- Whether the sign bit is set. -/
def negative : Binary64 → Bool
  | finite s _ => s
  | infinite s => s
  | nan s _ => s

/-- The same value with the sign bit flipped. -/
def neg : Binary64 → Binary64
  | finite s u => finite (!s) u
  | infinite s => infinite (!s)
  | nan s f => nan (!s) f

/-- A NaN as an operation passes it on, with the high bit of the fraction set. -/
def quiet (negative : Bool) (fraction : Nat) : Binary64 :=
  nan negative (if fraction < quietFraction then fraction + quietFraction else fraction)

/-- The exact product, rounded once. A NaN operand is passed on, the first one
winning, and zero times infinity is the NaN with the sign bit set. -/
def mul : Binary64 → Binary64 → Binary64
  | nan s f, _ => quiet s f
  | _, nan s f => quiet s f
  | infinite s, infinite t => infinite (s != t)
  | infinite s, finite t u => if u = 0 then nan true else infinite (s != t)
  | finite s u, infinite t => if u = 0 then nan true else infinite (s != t)
  | finite s u, finite t v => ofUnitsRatio (s != t) (u * v) unitsPerOne

/-- The exact sum, rounded once. Opposite infinities give the NaN with the sign
bit set, and a sum that cancels is positive zero unless both operands are
negative. -/
def add : Binary64 → Binary64 → Binary64
  | nan s f, _ => quiet s f
  | _, nan s f => quiet s f
  | infinite s, infinite t => if s = t then infinite s else nan true
  | infinite s, finite _ _ => infinite s
  | finite _ _, infinite t => infinite t
  | finite s u, finite t v =>
    if s = t then ofUnitsRatio s (u + v) 1
    else if u = v then zero
    else if v < u then ofUnitsRatio s (u - v) 1
    else ofUnitsRatio t (v - u) 1

/-- The exact quotient, rounded once. -/
def div : Binary64 → Binary64 → Binary64
  | nan s f, _ => quiet s f
  | _, nan s f => quiet s f
  | infinite _, infinite _ => nan true
  | infinite s, finite t _ => infinite (s != t)
  | finite s _, infinite t => finite (s != t) 0
  | finite s u, finite t v =>
    if v = 0 then (if u = 0 then nan true else infinite (s != t))
    else ofUnitsRatio (s != t) (u * unitsPerOne) v

instance : Mul Binary64 := ⟨mul⟩
instance : Add Binary64 := ⟨add⟩
instance : Div Binary64 := ⟨div⟩
instance : Neg Binary64 := ⟨neg⟩

/-! ## The total order -/

/-- The place of a magnitude: finite ones by size, then infinity, then the NaNs. -/
def magnitudeRank : Binary64 → Nat
  | finite _ u => u
  | infinite _ => overflowUnits
  | nan _ f => overflowUnits + f

/-- The place in the total order: a set sign bit mirrors the magnitudes, negative
zero standing just below positive zero. -/
def rank (x : Binary64) : Int :=
  if x.negative then -(x.magnitudeRank : Int) - 1 else (x.magnitudeRank : Int)

/-- Whether `x` stands no later than `y` in the total order. -/
def totalLE (x y : Binary64) : Bool := x.rank ≤ y.rank

/-! ## The interchange form -/

/-- The place of the exponent field, above the 52 bits of the fraction. -/
def fractionBound : Nat := Nat.pow 2 52

/-- The place of the sign bit. -/
def signBound : Nat := Nat.pow 2 63

/-- The sign bit in its place. -/
def signBits (negative : Bool) : Nat := if negative then signBound else 0

/-- The 63 low bits: exponent field and significand of a magnitude in units. -/
def magnitudeBits (units : Nat) : Nat :=
  if units < fractionBound then units
  else
    let k := units.log2 - 52
    k * fractionBound + units / Nat.pow 2 k

/-- The 64 bits of the interchange form. -/
def toBits : Binary64 → Nat
  | finite s u => signBits s + magnitudeBits u
  | infinite s => signBits s + 0x7FF0000000000000
  | nan s f => signBits s + 0x7FF0000000000000 + f

/-- The double of 64 bits of the interchange form. -/
def ofBits (bits : Nat) : Binary64 :=
  let negative := bits / signBound % 2 = 1
  let exponent := bits / fractionBound % 2048
  let fraction := bits % fractionBound
  if exponent = 2047 then (if fraction = 0 then infinite negative else nan negative fraction)
  else if exponent = 0 then finite negative fraction
  else finite negative ((fractionBound + fraction) * Nat.pow 2 (exponent - 1))

/-! ## Whole parts -/

/-- The nearest whole number of a magnitude, a tie going up. -/
def roundHalfUp (units : Nat) : Nat := (2 * units + unitsPerOne) / (2 * unitsPerOne)

/-- The nearest whole number, a half going away from zero, confined to `0 … bound`;
NaN counts as zero. -/
def roundClamped (bound : Nat) : Binary64 → Nat
  | finite false u => min (roundHalfUp u) bound
  | finite true _ => 0
  | infinite false => bound
  | infinite true => 0
  | nan _ _ => 0

end Binary64

end Tenure.Numeric
