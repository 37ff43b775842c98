import VisibleDifference.CommandLine.Help
import VisibleDifference.CommandLine.Run
import VisibleDifference.Png.Decode
import VisibleDifference.Png.Encode

/-!
# The program

Reads its arguments and runs the task they set on PNG files. What is printed goes to standard
output and what fails to standard error; the exit code is 0 for a match, 1 for a difference and 2
for a failure.
-/

namespace VisibleDifference.CommandLine

/-- The reason why a file could not be opened. -/
def reasonOf : IO.Error → String
  | .noFileOrDirectory .. => Tray.noSuchFile
  | e => toString e

def fileDesk : Desk IO where
  load name := do
    match ← (IO.FS.readBinFile name).toBaseIO with
    | .error e => return .error (reasonOf e)
    | .ok bytes =>
        match Png.decode bytes with
        | some r => return .ok r
        | none => return .error "the file is not a PNG image that can be decoded"
  save name r := do
    match formatFault name with
    | some why => return .error why
    | none =>
        match ← (IO.FS.writeBinFile name (Png.encode r)).toBaseIO with
        | .error e => return .error (reasonOf e)
        | .ok () => return .ok ()
  print line := IO.println line

def failWith (message : String) : IO UInt32 := do
  IO.eprintln s!"error: {message}"
  return 2

end VisibleDifference.CommandLine

open VisibleDifference.CommandLine in
def main (args : List String) : IO UInt32 := do
  match Task.ofArguments args with
  | .error (.fault f) => failWith f.message
  | .error .help => do
      IO.println helpText
      return 0
  | .error .version => do
      IO.println versionText
      return 0
  | .ok task =>
      match ← run fileDesk task with
      | .failed message => failWith message
      | ending => return ending.exitCode
