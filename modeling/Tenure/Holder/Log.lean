import Tenure.Json.Print
import Tenure.Lifecycle.Event

/-!
# Log lines

What is written to the log while a session is held: the lines that the events of the
session give, and the program's own. The target of a line names the part of the program
it comes from.
-/

namespace Tenure.Holder

open Lifecycle

/-- How much a line matters. -/
inductive Level
  | error
  | warn
  | info
  | debug
  | trace
deriving DecidableEq

namespace Level

/-- How much has to be let through for a line of the level to be. -/
def verbosity : Level → Nat
  | error => 1
  | warn => 2
  | info => 3
  | debug => 4
  | trace => 5

/-- The level as it stands in a line. -/
def name : Level → String
  | error => "ERROR"
  | warn => "WARN"
  | info => "INFO"
  | debug => "DEBUG"
  | trace => "TRACE"

end Level

/-- A line of the log. -/
structure LogLine where
  level : Level
  target : String
  message : String
  error : Option String := none
deriving DecidableEq

namespace LogLine

/-- A line of the program itself. -/
def own (level : Level) (message : String) (error : Option String := none) : LogLine :=
  ⟨level, "consulate", message, error⟩

/-- A line of the log's own setup. -/
def ofSetup (level : Level) (message : String) : LogLine :=
  ⟨level, "consulate::tracing", message, none⟩

/-- A line about a session. -/
def ofSession (level : Level) (message : String) (error : Option String := none) : LogLine :=
  ⟨level, "consulate::session::context", message, error⟩

/-- The line that every request leaves. -/
def request : LogLine := ⟨.debug, "consulate::client::http", "agent request", none⟩

/-- The line that an event leaves, if it leaves one. -/
def ofEvent? : Event → Option LogLine
  | .issued .. => some request
  | .worked (.ask ..) => some request
  | .performed (.ask ..) => some request
  | .created _ => some (ofSession .info "Session created")
  | .createFailed _ cause => some (ofSession .warn "Failed to create session" cause.message)
  | .renewed => some (ofSession .debug "Session renewed")
  | .renewalMissed cause _ =>
    some (ofSession .warn "Session renewal failed, retrying on next tick" cause.message)
  | .expired cause => some (ofSession .error "Session expired" cause.message)
  | .ending _ => some (ofSession .info "Session ending")
  | .destroyed => some (ofSession .debug "Session destroyed")
  | .destroyFailed cause =>
    some (ofSession .warn "Failed to destroy session, agent TTL will reap it" cause.message)
  | .destroyTimedOut _ =>
    some (ofSession .warn "Session destroy timed out, agent TTL will reap it")
  | _ => none

/-- The line as a JSON document. -/
def value (l : LogLine) : Json.Value :=
  let error := match l.error with
    | some e => [("error", Json.Value.text e)]
    | none => []
  .object [("level", .text l.level.name),
    ("fields", .object (("message", .text l.message) :: error)), ("target", .text l.target)]

/-- The line as a text. -/
def text (l : LogLine) : String :=
  let error := match l.error with
    | some e => " error=" ++ e
    | none => ""
  l.level.name ++ " " ++ l.target ++ ": " ++ l.message ++ error

end LogLine

end Tenure.Holder
