import Tenure.Client.Config
import Tenure.Client.Query
import Tenure.Json.Print
import Tenure.Json.Scan
import Tenure.Url.Resolve

/-!
# Requests and replies

A `Call` is an operation on the agent: method, path, query, body, and how its response is
decoded. A `Client` turns a call into a `Request` for its transport and judges the
`Reply`.

* **Network**: base address, path and query form one address, whose target is worked out
  by `Url.target?`; the status is judged before the body is read.
* **Socket**: path and query are the target as they are; the body is read before the
  status is judged.

Only a complete reply with status 200 is a success. `Client.exchange` also gives the
request that the agent received, if it received one.
-/

namespace Tenure

open Json (Bytes)

/-! ## Messages -/

/-- The media type of everything that is sent and accepted. -/
def jsonMediaType : String := "application/json; charset=utf-8"

/-- A request as the agent receives it. -/
structure Request where
  method : Method
  target : String
  accept : String
  contentType : String
  userAgent : String
  body : Bytes
deriving DecidableEq

/-- What comes back for a request. -/
inductive Reply
  /-- No connection to the agent could be made. -/
  | unreachable
  /-- The agent took the request and closed the connection without a response. -/
  | closed
  /-- A response; it is not `complete` when the connection closed inside its body. -/
  | response (status : Nat) (body : Bytes) (complete : Bool)
deriving DecidableEq

/-- An operation on the agent. -/
structure Call (α : Type) where
  method : Method
  path : String
  query : Query
  body : Bytes
  decode : Bytes → Except ClientError α

/-- Decodes the body of a response as JSON. -/
def decodeBody {α : Type} (decoder : Nat → Json.Node → Json.Decoded α) (body : Bytes) :
    Except ClientError α :=
  (Json.decode decoder body).mapError .json

/-! ## Clients -/

/-- How a client reaches its agent. -/
inductive Transport
  /-- Over the network, under a base address. -/
  | network (base : String)
  /-- Over a socket at a path. -/
  | socket (path : String)
deriving DecidableEq

/-- A client of an agent. -/
structure Client where
  transport : Transport
  userAgent : String
  datacenter : Option String
deriving DecidableEq

/-- Whether a text can stand in a header: no controls other than the tab, no delete. -/
def isHeaderText (s : String) : Bool :=
  s.toList.all fun c => c == '\t' || !Url.isControl c

namespace Client

/-- The client of a configuration, for a program of the given name. The network transport
asks for a user agent that can stand in a header; a socket asks at the first request. -/
def create (config : ClientConfig) (program : String) : Except ClientError Client := do
  let userAgent := config.effectiveUserAgent program
  let transport ← match ← AgentAddress.parse config.address with
    | .tcp url => if isHeaderText userAgent then pure (.network url) else .error .network
    | .unix path => pure (.socket path)
  return { transport, userAgent, datacenter := config.datacenter.filter (· != "") }

/-- The client that the environment asks for. -/
def ofEnvironment (env : Environment) (program : String) : Except ClientError Client :=
  create (.ofEnvironment env) program

/-- The address of the agent as it is displayed. -/
def address (c : Client) : String :=
  match c.transport with
  | .network base => base
  | .socket path => "unix://" ++ path

/-- The client with all its fields. -/
def display (c : Client) : String :=
  "Client \x7b address: " ++ Text.quoted c.address ++ ", user_agent: " ++ Text.quoted c.userAgent
    ++ ", datacenter: " ++ Text.quotedOption c.datacenter ++ " \x7d"

/-- The query with the pinned datacenter, if there is one. -/
def pinned (c : Client) (q : Query) : Query :=
  match c.datacenter with
  | some dc => q.push "dc" dc
  | none => q

/-- Path and query of a call, as they stand in messages. -/
def pathAndQuery {α : Type} (c : Client) (call : Call α) : String :=
  let q := c.pinned call.query
  if q.isEmpty then call.path else call.path ++ "?" ++ q.render

/-- The whole address of a call, as it stands in messages. -/
def url {α : Type} (c : Client) (call : Call α) : String := c.address ++ c.pathAndQuery call

/-- The request of a call, if it can be built. Over a socket any path and query make a
target here. A request line cannot carry all of them: with a space in them (the identifier
of a session can bring one) or with more than 65534 bytes there is no request, and the
program breaks down, which is not modelled. -/
def request {α : Type} (c : Client) (call : Call α) : Except ClientError Request := do
  let target ← match c.transport with
    | .network _ =>
      match Url.target? (c.url call).toList with
      | some target => pure (String.ofList target)
      | none => .error .network
    | .socket _ =>
      if isHeaderText c.userAgent then pure (c.pathAndQuery call)
      else .error (.request "failed to parse header value")
  return {
    method := call.method
    target := target
    accept := jsonMediaType
    contentType := jsonMediaType
    userAgent := c.userAgent
    body := call.body }

/-- Whether a response of this status has no body. -/
def isBodiless (status : Nat) : Bool := status == 204 || status == 304

/-- The body of a reply to a call, or why there is none to use. -/
def judge {α : Type} (c : Client) (call : Call α) (reply : Reply) : Except ClientError Bytes :=
  match c.transport, reply with
  | .network _, .response status body complete =>
    if status != 200 then .error (.status call.method (c.url call) status)
    else if complete then .ok body
    else .error .network
  | .network _, _ => .error .network
  | .socket _, .response status body complete =>
    if !complete && !isBodiless status then .error .body
    else if status != 200 then .error (.status call.method (c.url call) status)
    else .ok body
  | .socket _, _ => .error .socket

/-- Whether a reply shows that the agent received the request. -/
def received : Reply → Bool
  | .unreachable => false
  | _ => true

/-- Performs a call against an agent: its result, and the request that was received. -/
def exchange {α : Type} (c : Client) (call : Call α) (agent : Request → Reply) :
    Except ClientError α × Option Request :=
  match c.request call with
  | .error e => (.error e, none)
  | .ok r =>
    let reply := agent r
    (c.judge call reply >>= call.decode, if received reply then some r else none)

end Client

/-! ## General calls -/

namespace Call

/-- Reads a JSON document. -/
def get {α : Type} (path : String) (query : Query)
    (decoder : Nat → Json.Node → Json.Decoded α) : Call α :=
  { method := .get, path, query, body := [], decode := decodeBody decoder }

/-- Sends bytes and reads a JSON document. -/
def putRaw {α : Type} (path : String) (query : Query) (body : Bytes)
    (decoder : Nat → Json.Node → Json.Decoded α) : Call α :=
  { method := .put, path, query, body, decode := decodeBody decoder }

/-- Sends a JSON document and reads one. -/
def put {α : Type} (path : String) (query : Query) (document : Json.Value)
    (decoder : Nat → Json.Node → Json.Decoded α) : Call α :=
  putRaw path query document.print.toUTF8.toList decoder

/-- Sends nothing and ignores what comes back. -/
def putEmpty (path : String) (query : Query) : Call Unit :=
  { method := .put, path, query, body := [], decode := fun _ => .ok () }

/-- Deletes, and ignores what comes back. -/
def delete (path : String) (query : Query) : Call Unit :=
  { method := .delete, path, query, body := [], decode := fun _ => .ok () }

/-- Sends bytes and gives back the bytes of the response. -/
def raw (method : Method) (path : String) (query : Query) (body : Bytes) : Call Bytes :=
  { method, path, query, body, decode := .ok }

end Call

end Tenure
