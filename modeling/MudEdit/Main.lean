import MudEdit.Command
import MudEdit.Text.Source

/-!
# The program on the command line
-/

open MudEdit

/-- The text of a file, if the path is that of one. -/
def readSource (path : String) : IO (Option String) :=
  try return some (Text.ofBytes (← IO.FS.readBinFile path)) catch _ => return none

def main (arguments : List String) : IO UInt32 := do
  let text ← match Command.file? arguments with
    | some path => readSource path
    | none => pure none
  let outcome := Command.run (fun _ => text) arguments
  (← IO.getStdout).putStr outcome.output
  (← IO.getStderr).putStr outcome.errors
  return if outcome.succeeded then 0 else 1
