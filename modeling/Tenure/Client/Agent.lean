import Tenure.Lifecycle.Agent
import Tenure.Session.Calls

/-!
# A client as an agent

A client and somebody who replies to its requests make an agent: every call becomes a
request, and the reply decides the answer, which is there at once.
-/

namespace Tenure

open Lifecycle

/-- The request of a call to an agent. -/
def Lifecycle.AgentCall.request (c : Client) : AgentCall → Except ClientError Request
  | .create config => c.request (.createSession config)
  | .renew id => c.request (.renewSession id)
  | .destroy id => c.request (.destroySession id)
  | .lock operation id key => do c.request (← lockCall operation { id } key [])

namespace Client

/-- The outcome of a call, at once. -/
def answer {α : Type} (c : Client) (call : Call α) (reply : Request → Reply) : Answer α :=
  ⟨some 0, (c.exchange call reply).1⟩

/-- The agent that a client makes of replies, the request after `k` calls getting
`reply k`. -/
def agent (c : Client) (reply : Nat → Request → Reply) : Agent where
  create history config := c.answer (.createSession config) (reply history.length)
  renew history id := c.answer (.renewSession id) (reply history.length)
  destroy history id := c.answer (.destroySession id) (reply history.length)
  lock history operation id key :=
    match lockCall operation { id } key [] with
    | .ok call => c.answer call (reply history.length)
    | .error e => ⟨some 0, .error e⟩

/-- The requests that arrive when an agent is asked some calls. -/
def arriving (c : Client) (reply : Nat → Request → Reply) (calls : List AgentCall) :
    List Request :=
  calls.zipIdx.filterMap fun (call, k) =>
    match call.request c with
    | .ok r => if received (reply k r) then some r else none
    | .error _ => none

end Client

end Tenure
