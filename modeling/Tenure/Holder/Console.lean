import Tenure.Holder.Schedule

/-!
# The program on a console

What goes in and out when the program is run from a command line. The agent is whoever
answers on the input, one reply a line: the status and, behind a blank, the body. A line
that begins with no status is a connection that was closed without a response, and no
connection can be made when the lines have run out.
-/

namespace Tenure.Holder

/-- The environment variables that the program looks at. -/
def variableNames : List String :=
  ["CONSUL_HTTP_ADDR", "CONSUL_DATACENTER", "CONSULATE_USER_AGENT", "CONSULATE_LOG_FORMAT",
    "RUST_LOG", "OTEL_EXPORTER_OTLP_ENDPOINT"]

/-- The reply that a line stands for. -/
def replyOfLine (line : String) : Reply :=
  let status := line.toList.takeWhile Char.isDigit
  let body := (line.toList.drop status.length).drop 1
  if status.isEmpty then .closed
  else .response (Numeric.digitsValue status) (String.ofList body).toUTF8.toList true

/-- The replies of the lines in order. -/
def repliesOfLines (lines : List String) (k : Nat) (_ : Request) : Reply :=
  match lines[k]? with
  | some line => replyOfLine line
  | none => .unreachable

/-- A line of the log as it is written. -/
def LogSetup.render (setup : LogSetup) (l : LogLine) : String :=
  if setup.json then l.value.print else l.text

/-- What is said when the log cannot be set up. -/
def setupFailure : String :=
  programName ++ ": failed to initialize tracing: invalid collector address"

/-- A whole run: the exit code and what is written. It is interrupted once it listens. -/
def runOnConsole (setup : LogSetup) (arguments : List String) (env : Environment)
    (lines : List String) : Nat × List String :=
  let h := (start arguments env fun c => c.agent (repliesOfLines lines)).play true
  (h.code?.getD 1, (h.written setup).map setup.render)

end Tenure.Holder
