import Tenure.Numeric.Decimal
import Tenure.Url.Path

/-!
# The request target of a web address

`target?` reads an address `http://host:port/path?query` and gives the target that a
request to it carries: the path with its dots resolved, and the query, both with
everything percent-encoded that they may not carry. Blanks around the address and tabs
and line ends inside it are ignored, and a fragment is dropped. An address whose scheme
or host is not of a plain form has no target.
-/

namespace Tenure.Url

/-- Controls and the space, which an address ignores at its ends. -/
def isEdge (c : Char) : Bool := c.toNat ≤ 0x20

/-- An address without what it ignores. -/
def tidy (cs : List Char) : List Char :=
  ((cs.dropWhile isEdge).reverse.dropWhile isEdge).reverse.filter (!isIgnored ·)

/-- What a text is behind a word, if it begins with it. -/
def dropWord? (word cs : List Char) : Option (List Char) :=
  if word.isPrefixOf cs then some (cs.drop word.length) else none

/-- What an address is behind its scheme. -/
def dropScheme? (cs : List Char) : Option (List Char) :=
  (dropWord? "http:".toList cs).or (dropWord? "https:".toList cs)

/-- Whether a character can stand in a plain host name. -/
def isHostChar (c : Char) : Bool := c.isAlphanum || c == '-' || c == '.' || c == '_'

/-- Whether a port is empty or a number of 16 bits. -/
def isPort (cs : List Char) : Bool :=
  cs.all Char.isDigit && Numeric.digitsValue cs < 65536

/-- Whether an authority is a plain host, with or without a port. Only its characters are
looked at: a host that ends in a number without being an address, such as `consul.1` or
`256.0.0.1`, and a label `xn--` that encodes nothing pass here, although the rules of
addresses refuse them. -/
def isPlainAuthority (cs : List Char) : Bool :=
  let host := cs.takeWhile (· != ':')
  !host.isEmpty && host.all isHostChar && isPort ((cs.dropWhile (· != ':')).drop 1)

/-- Whether a character ends an authority. -/
def endsAuthority (c : Char) : Bool := Path.isSeparator c || c == '?' || c == '#'

/-- The target of a request to an address. There is one for every plain host, also for
those that `isPlainAuthority` lets pass and the rules of addresses refuse; no request
could be sent to such a host. -/
def target? (address : List Char) : Option (List Char) := do
  let cs := (← dropScheme? (tidy address)).dropWhile Path.isSeparator
  if isPlainAuthority (cs.takeWhile (!endsAuthority ·)) then
    let reference := (cs.dropWhile (!endsAuthority ·)).takeWhile (· != '#')
    let path := Path.ofReference (reference.takeWhile (· != '?'))
    match reference.dropWhile (· != '?') with
    | [] => return path
    | mark :: query => return path ++ mark :: encodeChars keptInQuery query
  else none

end Tenure.Url
