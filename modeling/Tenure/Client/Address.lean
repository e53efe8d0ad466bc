import Tenure.Client.Error
import Tenure.Text.Blank

/-!
# Agent addresses

An agent listens on the network or on a local socket. `AgentAddress.parse` reads a
configured address: blanks around it are dropped, nothing means the default, a scheme of
`http`, `https` or `unix` decides, and without a scheme it is `http`. An address on the
network is kept without trailing slashes.
-/

namespace Tenure

/-- The address of an agent that is not configured otherwise. -/
def defaultAddress : String := "localhost:8500"

/-- Where an agent listens. -/
inductive AgentAddress
  /-- An address on the network, with its scheme and without a trailing slash. -/
  | tcp (url : String)
  /-- The path of a socket. -/
  | unix (path : String)
deriving DecidableEq

namespace AgentAddress

/-- What stands before and behind the first occurrence of a separator. -/
def splitOnce? (separator : List Char) : List Char → Option (List Char × List Char)
  | [] => if separator.isEmpty then some ([], []) else none
  | c :: rest =>
    if separator.isPrefixOf (c :: rest) then some ([], (c :: rest).drop separator.length)
    else (splitOnce? separator rest).map fun (before, behind) => (c :: before, behind)

/-- The characters without trailing slashes. -/
def dropSlashes (cs : List Char) : List Char := (cs.reverse.dropWhile (· == '/')).reverse

/-- The mark between a scheme and the rest. -/
def schemeMark : List Char := [':', '/', '/']

/-- The address of characters that are neither empty nor begin or end with a blank. -/
def ofChars (cs : List Char) : Except ClientError AgentAddress :=
  match splitOnce? schemeMark cs with
  | none => .ok (.tcp (String.ofList ("http://".toList ++ dropSlashes cs)))
  | some (scheme, rest) =>
    if rest.isEmpty then .error (.invalidAddress (String.ofList cs))
    else if scheme = "http".toList ∨ scheme = "https".toList then
      .ok (.tcp (String.ofList (scheme ++ schemeMark ++ dropSlashes rest)))
    else if scheme = "unix".toList then .ok (.unix (String.ofList rest))
    else .error (.invalidAddress (String.ofList cs))

/-- Reads a configured address. -/
def parse (s : String) : Except ClientError AgentAddress :=
  match Text.trimChars s.toList with
  | [] => ofChars defaultAddress.toList
  | cs => ofChars cs

/-- The address as it is displayed. -/
def display : AgentAddress → String
  | tcp url => url
  | unix path => "unix://" ++ path

end AgentAddress

end Tenure
