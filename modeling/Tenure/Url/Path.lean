import Tenure.Url.Percent

/-!
# Paths of web addresses

A path is kept as its text, which begins with a slash. `Path.extend` appends a segment
the way an address does: tabs and line ends vanish, what a segment may not carry is
percent-encoded, and a segment that then is one or two dots acts on the path instead of
standing in it. A segment given as exactly `.` or `..` is passed over.

`Path.ofReference` reads the path of an address, where slashes separate segments and
dots may be written `%2e`.
-/

namespace Tenure.Url

/-- The text of a path. -/
abbrev Path := List Char

/-- Tabs and line ends, which an address ignores. -/
def isIgnored (c : Char) : Bool := c == '\t' || c == '\n' || c == '\r'

/-- The empty path of an address. -/
def rootPath : Path := ['/']

namespace Path

/-- The path through its last slash. -/
def dropSegment (p : Path) : Path := (p.reverse.dropWhile (· != '/')).reverse

/-- Whether a path ends in a slash. -/
def endsInSlash (p : Path) : Bool := p.getLast? == some '/'

/-- Whether a text is a drive letter between slashes, which dots never climb over. -/
def isDriveSegment : List Char → Bool
  | [c, mark, _] => c.isAlpha && (mark == ':' || mark == '|')
  | _ => false

/-- Whether two dots may take away the slash that ends a path: there has to be a segment
before it that is no drive letter. -/
def canClimb (p : Path) : Bool :=
  let init := p.dropLast
  init.contains '/' && !isDriveSegment ((init.reverse.takeWhile (· != '/')).reverse ++ ['/'])

/-- The path one level up: what two dots after a slash leave. -/
def climb (p : Path) : Path :=
  let p := if endsInSlash p && canClimb p then p.dropLast else p
  dropSegment p

/-- What a segment does once it has been encoded. -/
inductive Dots
  | none
  | one
  | two
deriving DecidableEq

/-- Reads one dot, plain or encoded. -/
def dropDot? : List Char → Option (List Char)
  | '.' :: rest => some rest
  | '%' :: '2' :: 'e' :: rest => some rest
  | '%' :: '2' :: 'E' :: rest => some rest
  | _ => Option.none

/-- Whether a segment consists of one or two dots. -/
def dotsOf (segment : List Char) : Dots :=
  match dropDot? segment with
  | Option.none => .none
  | some [] => .one
  | some rest =>
    match dropDot? rest with
    | some [] => .two
    | _ => .none

/-- Puts an encoded segment behind a path that ends in a slash. `slash` says whether a
slash follows it. -/
def place (p : Path) (segment : List Char) (slash : Bool) : Path :=
  match dotsOf segment with
  | .none => p ++ segment ++ (if slash then ['/'] else [])
  | .one => if endsInSlash p then p else p ++ ['/']
  | .two =>
    let q := climb p
    if slash && !endsInSlash q then q ++ ['/'] else q

/-- Appends one segment given as plain text. -/
def extend (p : Path) (segment : List Char) : Path :=
  if segment = ['.'] ∨ segment = ['.', '.'] then p
  else
    let p := if 1 < p.length then p ++ ['/'] else p
    place p (encodeChars keptInSegment (segment.filter (!isIgnored ·))) false

/-- The path of the given segments, one after the other. -/
def ofSegments (segments : List (List Char)) : Path := segments.foldl extend rootPath

/-- Whether a character separates the segments of an address. -/
def isSeparator (c : Char) : Bool := c == '/' || c == '\\'

/-- Reads the segments of an address behind a path that ends in a slash; the segment read
so far is in reverse. -/
def readSegments (p : Path) (segment : List Char) : List Char → Path
  | [] => place p (encodeChars keptInPath segment.reverse) false
  | c :: rest =>
    if isSeparator c then
      readSegments (place p (encodeChars keptInPath segment.reverse) true) [] rest
    else readSegments p (c :: segment) rest

/-- The path of an address, from what stands between its host and its query. -/
def ofReference (cs : List Char) : Path :=
  match cs with
  | [] => rootPath
  | c :: rest => readSegments rootPath [] (if isSeparator c then rest else cs)

end Path

end Tenure.Url
