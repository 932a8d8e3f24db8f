import LosslessSyntax.Command.Run
import LosslessSyntax.Main.Arguments
import LosslessSyntax.Main.Log

/-!
# The command

Reads the files that the arguments name, runs, and prints what the run leaves.
-/

namespace LosslessSyntax

/-- The contents of a file. -/
def fileContents (name : String) : IO (Except FileFault ByteArray) := do
  try
    return .ok (← IO.FS.readBinFile name)
  catch error =>
    match error with
    | .noFileOrDirectory .. => return .error .notFound
    | .inappropriateType _ code _ =>
      return .error (if code = 21 then .isDirectory else .notDirectory)
    | error => return .error (.other (toString error))

end LosslessSyntax

open LosslessSyntax in
/-- Runs the command line. -/
def main (arguments : List String) : IO UInt32 := do
  match Invocation.ofArguments? arguments with
  | none =>
    IO.eprintln "usage: [-v]... (tokens | tree | check) [-v]... [-e PROGRAM] [FILE]..."
    return 2
  | some invocation =>
    let files ← invocation.files.mapM fun name => do return (name, ← fileContents name)
    match run Event.line invocation fun name => (files.lookup name).getD (.error .notFound) with
    | .error fault =>
      IO.eprintln (fault.message?.getD "fault")
      return 101
    | .ok outcome =>
      IO.print outcome.stdout
      outcome.stderr.forM IO.eprintln
      return outcome.exitCode.toUInt32
