/-!
# Addresses of trace collectors

A collector is named by a web address in one of three forms: a scheme, an authority and
a path; an authority alone; or a path alone. `isCollector` says whether a text is one.
-/

namespace Tenure.Holder.Collector

/-- Characters of an authority, separators included. -/
def isAuthorityChar (c : Char) : Bool :=
  c.isAlphanum || "!$&'()*+,-.:;=@[]_~".toList.contains c

/-- Whether a character ends an authority. -/
def endsAuthority (c : Char) : Bool := c == '/' || c == '?' || c == '#'

/-- Characters of a scheme. -/
def isSchemeChar (c : Char) : Bool := c.isAlphanum || "+-.~".toList.contains c

/-- Characters of a path, from the exclamation mark on. -/
def isPathChar (c : Char) : Bool :=
  0x21 ≤ c.toNat && c != '#' && c != '<' && c != '>' && c != '^' && c != '\x60'

/-- Characters of a query. -/
def isQueryChar (c : Char) : Bool := 0x21 ≤ c.toNat && c != '"' && c != '<' && c != '>'

/-- What a scan of an authority keeps in mind. -/
structure Scan where
  colons : Nat := 0
  opened : Bool := false
  closed : Bool := false
  percent : Bool := false
  /-- The last character was the end of the user's part. -/
  atSign : Bool := false

/-- Takes in one character of an authority; none if it cannot stand there. -/
def Scan.take (s : Scan) (c : Char) : Option Scan :=
  let s := { s with atSign := false }
  if c == ':' then (if 8 ≤ s.colons then none else some { s with colons := s.colons + 1 })
  else if c == '[' then (if s.percent || s.opened then none else some { s with opened := true })
  else if c == ']' then
    if !s.opened || s.closed then none
    else some { s with closed := true, colons := 0, percent := false }
  else if c == '@' then some { s with colons := 0, percent := false, atSign := true }
  else if c == '%' then some { s with percent := true }
  else if isAuthorityChar c then some s
  else none

/-- Whether an authority can end here: brackets in pairs, at most one colon before a
port, no percent sign in the host, and something behind the user's part. -/
def Scan.isWhole (s : Scan) : Bool :=
  s.opened == s.closed && s.colons ≤ 1 && !s.atSign && !s.percent

/-- Whether a text is an authority. -/
def isAuthority (cs : List Char) : Bool := (cs.foldlM Scan.take {}).any Scan.isWhole

/-- Whether a text is a path with a query and a fragment, or part of such. -/
def isReference (cs : List Char) : Bool :=
  let path := cs.takeWhile fun c => c != '?' && c != '#'
  path.all isPathChar && match cs.drop path.length with
    | '?' :: query => (query.takeWhile (· != '#')).all isQueryChar
    | _ => true

/-- What a text is behind its scheme, if it has one. -/
def dropScheme? (cs : List Char) : Option (List Char) :=
  match cs.dropWhile isSchemeChar with
  | ':' :: '/' :: '/' :: rest => some rest
  | _ => none

/-- Whether a text is the address of a collector. -/
def isCollector (s : String) : Bool :=
  let cs := s.toList
  match dropScheme? cs with
  | some rest =>
    let authority := rest.takeWhile (!endsAuthority ·)
    !authority.isEmpty && isAuthority authority && isReference (rest.drop authority.length)
  | none =>
    if cs.head? == some '/' then isReference cs
    else cs == ['*'] || (!cs.isEmpty && !cs.any endsAuthority && isAuthority cs)

end Tenure.Holder.Collector
