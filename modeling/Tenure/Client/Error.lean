import Tenure.Duration
import Tenure.Json.Message

/-!
# Errors of agent requests

Each way in which a request can fail is one constructor; `ClientError.message` holds
all the wording. A transport adds its own detail behind the leading phrase; that detail
is not part of this library.
-/

namespace Tenure

/-- The methods used against the agent. -/
inductive Method
  | get
  | put
  | delete
deriving DecidableEq

/-- The method as it stands in a request. -/
def Method.name : Method → String
  | get => "GET"
  | put => "PUT"
  | delete => "DELETE"

/-- The two operations on a lock. -/
inductive LockOperation
  | acquire
  | release
deriving DecidableEq

/-- The name under which a lock operation reports itself. -/
def LockOperation.name : LockOperation → String
  | acquire => "acquire_lock"
  | release => "release_lock"

/-- Why a request failed. -/
inductive ClientError
  /-- The network transport could not build, send or complete the request. -/
  | network
  /-- The socket transport could not deliver the request. -/
  | socket
  /-- The response on a socket broke off. -/
  | body
  /-- The request could not be built. -/
  | request (reason : String)
  /-- The response could not be decoded. -/
  | json (cause : Json.DecodeError)
  /-- The agent answered with a status other than 200. -/
  | status (method : Method) (url : String) (code : Nat)
  /-- The agent's address cannot be used. -/
  | invalidAddress (address : String)
  /-- No answer came in time. -/
  | timeout (after : Duration)
  /-- The scope of the operation ended first. -/
  | cancelled
  /-- A lock operation was given a session that does not exist yet. -/
  | missingSession (operation : LockOperation)
deriving DecidableEq

namespace ClientError

/-- What the error says. -/
def message : ClientError → String
  | network => "agent request failed"
  | socket => "agent request over unix socket failed"
  | body => "failed to read agent response"
  | request reason => "invalid agent request: " ++ reason
  | json _ => "invalid JSON"
  | status method url code =>
    method.name ++ " " ++ url ++ ": " ++ String.ofList (Numeric.decimalDigits code)
  | invalidAddress address => "invalid agent address " ++ Text.quoted address
  | timeout after => "agent request timed out after " ++ after.display
  | cancelled => "agent request cancelled"
  | missingSession operation => operation.name ++ " requires a consul session but none was given"

/-- The status that the agent answered with, if that was the failure. -/
def statusCode : ClientError → Option Nat
  | status _ _ code => some code
  | _ => none

end ClientError

end Tenure
