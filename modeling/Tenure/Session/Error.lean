import Tenure.Client.Error

/-!
# Errors of sessions

Why a session could not begin, or why its context ended. A context ends with
`cancelled`, `parentCancelled` or `renewFailed`; the other two only ever come from
`begin`.
-/

namespace Tenure

/-- Why a session could not begin, or why its context ended. -/
inductive SessionError
  /-- The configuration was rejected before any request was made. -/
  | config (reason : String)
  /-- The agent did not create the session. -/
  | create (cause : ClientError)
  /-- The owner cancelled the context, or gave it up. -/
  | cancelled
  /-- The scope around the context was cancelled. -/
  | parentCancelled
  /-- Renewals kept failing past the expiry of the session. -/
  | renewFailed (id : String) (cause : ClientError)
deriving DecidableEq

namespace SessionError

/-- The label used in logs and metrics. -/
def reason : SessionError → String
  | config _ => "config"
  | create _ => "create_failed"
  | cancelled => "cancelled"
  | parentCancelled => "parent_cancelled"
  | renewFailed .. => "renew_failed"

/-- Whether somebody asked for the end. -/
def isCancellation : SessionError → Bool
  | cancelled => true
  | parentCancelled => true
  | _ => false

/-- What the error says. -/
def message : SessionError → String
  | config reason => "invalid session configuration: " ++ reason
  | create cause => "failed to create session: " ++ cause.message
  | cancelled => "session cancelled"
  | parentCancelled => "parent scope cancelled"
  | renewFailed id cause => "session " ++ id ++ " expired, last renewal failed: " ++ cause.message

/-- The request that failed, where that is the reason. -/
def cause : SessionError → Option ClientError
  | create c => some c
  | renewFailed _ c => some c
  | _ => none

end SessionError

end Tenure
