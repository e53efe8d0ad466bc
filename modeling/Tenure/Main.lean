import Tenure.Holder.Console

/-!
# The command line

The first argument names the session to hold and the second, if there is one, the key to
lock under it. The agent answers on standard input, and the log goes to standard output.
-/

namespace Tenure.Holder

/-- The lines of a stream. -/
partial def readLines (input : IO.FS.Stream) (lines : Array String) : IO (Array String) := do
  let line ← input.getLine
  if line.isEmpty then return lines
  readLines input (lines.push (line.trimAsciiEnd).copy)

/-- The variables that are set. -/
def readEnvironment : IO Environment :=
  variableNames.filterMapM fun name => do
    return (← IO.getEnv name).map fun value => (name, value)

end Tenure.Holder

open Tenure.Holder

/-- Runs the program; the exit code tells whether it was interrupted in order. -/
def main (arguments : List String) : IO UInt32 := do
  let env ← readEnvironment
  match LogSetup.ofEnvironment? env with
  | none =>
    IO.eprintln setupFailure
    return 1
  | some setup =>
    let lines ← readLines (← IO.getStdin) #[]
    let (code, written) := runOnConsole setup arguments env lines.toList
    written.forM IO.println
    return UInt32.ofNat code
