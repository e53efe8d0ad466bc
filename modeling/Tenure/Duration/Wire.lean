import Tenure.Duration
import Tenure.Text.Blank
import Tenure.Json.Node

/-!
# Durations on the wire

The agent writes and reads durations as texts such as `1h2m3.5s`, `150ms` or `0.3s`.

* `Duration.render` writes the duration in seconds, as the shortest decimal of the
  double nearest to it, followed by `s`;
* `Duration.parse?` reads a sequence of terms, each a number directly followed by its
  unit, and adds them up in double arithmetic; a bare `0` is no time at all;
* `Duration.ofText` does the same and reports a text that writes no duration;
* `IsDurationText` is the grammar of the texts that it accepts.

In a document a duration may also be a number of seconds; null and a blank text both
mean no time at all (`Duration.ofNode`).
-/

namespace Tenure

open Numeric Json

/-! ## Units and terms -/

/-- The units of time that a term can carry. -/
inductive TimeUnit
  | nanosecond
  | microsecond
  | millisecond
  | second
  | minute
  | hour
deriving DecidableEq

namespace TimeUnit

/-- The number of nanoseconds in a unit. -/
def nanos : TimeUnit → Nat
  | nanosecond => 1
  | microsecond => nanosPerMicro
  | millisecond => nanosPerMilli
  | second => nanosPerSecond
  | minute => 60 * nanosPerSecond
  | hour => 3600 * nanosPerSecond

/-- The spellings of a unit; the micro sign and the Greek letter are both read. -/
def spellings : TimeUnit → List (List Char)
  | nanosecond => [['n', 's']]
  | microsecond => [['u', 's'], ['\u00b5', 's'], ['\u03bc', 's']]
  | millisecond => [['m', 's']]
  | second => [['s']]
  | minute => [['m']]
  | hour => [['h']]

/-- Every unit. -/
def all : List TimeUnit := [nanosecond, microsecond, millisecond, second, minute, hour]

/-- The unit that a text spells. -/
def ofChars? (cs : List Char) : Option TimeUnit := all.find? fun u => u.spellings.contains cs

end TimeUnit

/-- A number and its unit. -/
structure DurationTerm where
  /-- digits before the point -/
  whole : List Char
  /-- digits after the point -/
  fraction : List Char
  unit : TimeUnit
deriving DecidableEq

/-- The nanoseconds of a term, as a double. -/
def DurationTerm.nanos (t : DurationTerm) : Binary64 :=
  Binary64.ofDigits t.whole t.fraction * Binary64.ofNat t.unit.nanos

/-! ## The grammar -/

/-- Whether a character can stand in a number. -/
def isNumberChar (c : Char) : Bool := c.isDigit || c == '.'

/-- A number: digits with at most one point among them, and at least one digit. -/
def IsNumberText (cs : List Char) : Prop :=
  cs.all isNumberChar ∧ cs.count '.' ≤ 1 ∧ cs.any Char.isDigit

/-- A unit in one of its spellings. -/
def IsUnitText (cs : List Char) : Prop := ∃ u : TimeUnit, cs ∈ u.spellings

/-- One or more terms, each a number directly followed by a unit. -/
inductive IsTermsText : List Char → Prop
  | single {number unit : List Char} :
      IsNumberText number → IsUnitText unit → IsTermsText (number ++ unit)
  | more {number unit rest : List Char} :
      IsNumberText number → IsUnitText unit → IsTermsText rest →
      IsTermsText (number ++ unit ++ rest)

/-- The texts that write a duration, blanks at the ends apart. -/
def IsDurationText (s : String) : Prop :=
  Text.trimChars s.toList = ['0'] ∨ IsTermsText (Text.trimChars s.toList)

/-! ## Reading -/

/-- The digits before and after the point of a number; none if there is a second point
or no digit. -/
def splitNumber? (cs : List Char) : Option (List Char × List Char) :=
  let whole := cs.takeWhile (· != '.')
  let fraction := (cs.dropWhile (· != '.')).drop 1
  if fraction.contains '.' || (whole.isEmpty && fraction.isEmpty) then none
  else some (whole, fraction)

/-- The terms of a text that begins with a number, one after the other. -/
def durationTerms? (cs : List Char) : Option (List DurationTerm) :=
  match cs with
  | [] => some []
  | c :: rest =>
    if isNumberChar c then
      let number := c :: rest.takeWhile isNumberChar
      let behind := rest.dropWhile isNumberChar
      match splitNumber? number, TimeUnit.ofChars? (behind.takeWhile (!isNumberChar ·)) with
      | some (whole, fraction), some unit =>
        (durationTerms? (behind.dropWhile (!isNumberChar ·))).map (⟨whole, fraction, unit⟩ :: ·)
      | _, _ => none
    else none
termination_by cs.length
decreasing_by
  have h₁ := (List.dropWhile_sublist (l := rest) isNumberChar).length_le
  have h₂ := (List.dropWhile_sublist (l := rest.dropWhile isNumberChar) (!isNumberChar ·)).length_le
  simp only [List.length_cons]
  omega

/-- The sum of the terms in nanoseconds, added up from the left. -/
def totalNanos (terms : List DurationTerm) : Binary64 :=
  terms.foldl (fun sum t => sum + t.nanos) .zero

/-- The largest number of nanoseconds that a text can stand for. -/
def nanosCap : Nat := Nat.pow 2 64 - 1

namespace Duration

/-- Reads a duration text; the sum is rounded to whole nanoseconds and capped. -/
def parse? (s : String) : Option Duration :=
  match Text.trimChars s.toList with
  | [] => none
  | ['0'] => some zero
  | cs => (durationTerms? cs).map fun terms => ofNanos ((totalNanos terms).roundClamped nanosCap)

/-- Reads a duration text; one that is none is reported as it was given. -/
def ofText (s : String) : Decoded Duration :=
  match parse? s with
  | some d => .ok d
  | none => unfit (.invalidDuration s)

/-! ## Writing -/

/-- The duration in seconds as a double: the two limbs are converted, divided and added
with one rounding each. -/
def asSeconds (d : Duration) : Binary64 :=
  Binary64.ofNat d.secs + Binary64.ofNat d.subsecNanos / Binary64.ofNat nanosPerSecond

/-- The duration as the agent accepts it; of two shortest decimals that are equally near,
the larger one is written. -/
def render (d : Duration) : String := d.asSeconds.text .upper ++ "s"

/-! ## Documents -/

/-- A number of seconds, to the nearest nanosecond, a tie going to the even one. -/
def ofSeconds (x : Binary64) : Decoded Duration :=
  match x with
  | .finite negative units =>
    if negative && units != 0 then unfit .negativeSeconds
    else match ofNanos? (roundHalfEven (units * nanosPerSecond) unitsPerOne) with
      | some d => .ok d
      | none => unfit .secondsOutOfRange
  | .infinite true => unfit .negativeSeconds
  | _ => unfit .secondsOutOfRange

/-- A number as a double. -/
def numberOfSeconds : Number → Binary64
  | .natural n => .ofNat n
  | .negative n => -(.ofNat n)
  | .real x => x

/-- A duration in a document: seconds as a number, a duration text, or nothing. -/
def ofNode (remaining : Nat) (n : Node) : Decoded Duration := do
  match ← n.asValue remaining with
  | .null => return zero
  | .number k => ofSeconds (numberOfSeconds k)
  | .text s =>
    if Text.isBlankText s then return zero else ofText s
  | _ => unfit .neitherNumberNorText

end Duration

end Tenure
