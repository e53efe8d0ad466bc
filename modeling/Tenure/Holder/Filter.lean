import Tenure.Holder.Log
import Tenure.Text.Pieces

/-!
# Log filters

A filter is a list of directives. A directive lets lines through up to a level, for all
targets or for those that begin with a given text; of the directives that concern a
line the one with the longest target decides, and of equal ones the last. A line that
no directive concerns is not written.

A directive reads `level`, `target` or `target=level`, a level being a name in any case
or a digit from 0 to 5. Directives with a part in brackets concern spans of work, which
no line here belongs to.
-/

namespace Tenure.Holder

/-- One rule of a filter; a level of none lets nothing through. -/
inductive Directive
  | lines (target : Option String) (level : Option Level)
  /-- A rule about spans. -/
  | spans
deriving DecidableEq

/-- The rules, in the order in which they were given. -/
abbrev Filter := List Directive

namespace Directive

/-- The names of the levels, in the order of their digits. -/
def levelNames : List (String × Option Level) :=
  [("off", none), ("error", some .error), ("warn", some .warn), ("info", some .info),
    ("debug", some .debug), ("trace", some .trace)]

/-- A level by its name or digit. -/
def level? (cs : List Char) : Option (Option Level) :=
  if !cs.isEmpty && cs.all Char.isDigit then
    (levelNames[Numeric.digitsValue cs]?).map (·.2)
  else levelNames.lookup (String.ofList (cs.map Char.toLower))

/-- The level behind an equals sign; all levels when none is given. -/
def givenLevel? (cs : List Char) : Option (Option Level) :=
  if cs.isEmpty then some (some .trace) else level? cs

/-- Whether a directive can begin with the character. -/
def isStart (c : Char) : Bool :=
  c == '[' || c == '-' || c == ':' || c == '_' || c.isAlphanum || 128 ≤ c.toNat

/-- What follows the brackets of a directive about spans: nothing, or a level. -/
def afterSpan? : List Char → Option Directive
  | [] => some spans
  | '=' :: level => (givenLevel? level).map fun _ => spans
  | _ => none

/-- A directive from its opening bracket on. -/
def span? (cs : List Char) : Option Directive :=
  let inside := cs.drop 1
  let rest := inside.dropWhile fun c => c != ']' && c != '\x7b'
  match rest with
  | ']' :: after => afterSpan? after
  | _ :: fields =>
    match fields.dropWhile (· != '\x7d') with
    | _ :: ']' :: after =>
      if (fields.takeWhile (· != '\x7d')).isEmpty then none else afterSpan? after
    | _ => none
  | [] => none

/-- Reads a directive. -/
def parse? (cs : List Char) : Option Directive :=
  let plain (c : Char) : Bool := c != '=' && c != '['
  if !cs.head?.any isStart then none
  else match cs.dropWhile plain with
    | [] =>
      match level? cs with
      | some level => some (lines none level)
      | none => some (lines (String.ofList cs) (some .trace))
    | '=' :: level =>
      (givenLevel? level).map (lines (some (String.ofList (cs.takeWhile plain))) ·)
    | rest => span? rest

/-- How narrow a rule is, if it concerns lines of the target. -/
def breadth? (target : String) : Directive → Option (Nat × Option Level)
  | lines none level => some (0, level)
  | lines (some t) level =>
    if t.toList.isPrefixOf target.toList then some (t.length + 1, level) else none
  | spans => none

end Directive

namespace Filter

/-- The filter when none is asked for. -/
def standard : Filter :=
  [.lines none (some .info), .lines (some "consulate") (some .debug)]

/-- The filter of no directives at all. -/
def errorsOnly : Filter := [.lines none (some .error)]

/-- Reads a filter; none if one of its directives cannot be read. -/
def parse? (s : String) : Option Filter := do
  let directives ← ((Text.pieces ',' s.toList).filter (!·.isEmpty)).mapM Directive.parse?
  return if directives.isEmpty then errorsOnly else directives

/-- The level up to which lines of a target are let through. -/
def levelFor (f : Filter) (target : String) : Option Level :=
  let concerned := f.filterMap (Directive.breadth? target)
  (concerned.foldl (fun (best : Nat × Option Level) d => if best.1 ≤ d.1 then d else best)
    (0, none)).2

/-- Whether a line is let through. -/
def passes (f : Filter) (l : LogLine) : Bool :=
  (f.levelFor l.target).any fun level => l.level.verbosity ≤ level.verbosity

end Filter

end Tenure.Holder
