import Tenure.Client.Exchange
import Tenure.Session.Info
import Tenure.Text.Pieces

/-!
# Session and lock calls

The operations of the agent that concern sessions, and the two that lock a key through a
session. A lock is a key acquired under a session's identifier, so a session that was
never created can hold none.
-/

namespace Tenure

open Json

/-! ## Sessions -/

/-- The identifier in the answer to a create request. -/
def createdId (remaining : Nat) : Node → Decoded String
  | .array items closed => Node.opening remaining fun _ => do
    let (id, items) ← Node.nextItem closed Node.asText items
    match id with
    | none => unfit (.invalidLength 0 "struct CreatedSession with 1 element")
    | some id => Node.endItems closed items; return id
  | .object members closed _ => Node.opening remaining fun _ => do
    let id ← Node.eachMember (fun (id : Option String) name n =>
      if name = "ID" then fillOnce name id n.asText
      else do n.skip; return id) none members closed
    match id with
    | none => unfit (.missingField "ID")
    | some id => return id
  | n => n.reject "struct CreatedSession"

/-- The sessions in the answer to an information request: null, or a list. -/
def reportedSessions (remaining : Nat) : Node → Decoded (Option (List SessionInfo))
  | .null => .ok none
  | n => return some (← n.asList SessionInfo.ofNode remaining)

namespace Call

/-- Creates a session; gives back the identifier that the agent assigned. -/
def createSession (config : SessionConfig) : Call String :=
  put "/v1/session/create" .empty config.value createdId

/-- Starts the TTL of a session anew. -/
def renewSession (id : String) : Call Unit := putEmpty ("/v1/session/renew/" ++ id) .empty

/-- Destroys a session, which releases or deletes the keys it locked. -/
def destroySession (id : String) : Call Unit := putEmpty ("/v1/session/destroy/" ++ id) .empty

/-- Looks a session up; none if the agent does not know it. -/
def sessionInfo (id : String) : Call (Option SessionInfo) :=
  { method := .get, path := "/v1/session/info/" ++ id, query := .empty, body := []
    decode := fun body => do
      let sessions ← decodeBody reportedSessions body
      return sessions.bind (·.head?) }

end Call

/-! ## Locks -/

/-- The segments of a key: what stands between its slashes, leading slashes apart. -/
def keySegments (key : String) : List (List Char) :=
  Text.pieces '/' (key.toList.dropWhile (· == '/'))

/-- The path of a key, each of its segments escaped. -/
def keyPath (key : String) : String :=
  String.ofList (Url.Path.ofSegments (["v1".toList, "kv".toList] ++ keySegments key))

/-- The parameter that names the session of a lock operation. -/
def LockOperation.parameter : LockOperation → String
  | acquire => "acquire"
  | release => "release"

/-- The call of a lock operation on a key; there has to be a session. -/
def lockCall (operation : LockOperation) (session : Session) (key : String) (value : Bytes) :
    Except ClientError (Call Bool) :=
  if session.id = "" then .error (.missingSession operation)
  else .ok (.putRaw (keyPath key) (Query.empty.push operation.parameter session.id) value
    fun _ n => n.asBool)

/-- Tries to lock a key, storing a value in it; false if another session holds it. -/
def acquireLock (session : Session) (key : String) (value : Bytes) :
    Except ClientError (Call Bool) :=
  lockCall .acquire session key value

/-- Unlocks a key; false if the session did not hold it. -/
def releaseLock (session : Session) (key : String) : Except ClientError (Call Bool) :=
  lockCall .release session key []

end Tenure
