import BranchSelector.Command.Arguments
import BranchSelector.Command.Basic

/-!
# The program

Reads the files that the arguments name, runs the command on their contents and prints
what comes of it. Everything that is decided is decided by `Arguments` and `Command`.
-/

namespace BranchSelector.Main

/-- How a failed access to a file is told. -/
def fileFault : IO.Error → FileFault
  | .noFileOrDirectory .. => .notFound
  | .permissionDenied _ code details => .refused s!"{details} (os error {code})"
  | .inappropriateType _ code details => .refused s!"{details} (os error {code})"
  | error => .refused error.toString

def readFile (name : String) : IO File := do
  try
    let bytes ← IO.FS.readBinFile name
    return ⟨name, .ok bytes.toList⟩
  catch error =>
    return ⟨name, .error (fileFault error)⟩

/-- Reads the files of the command that the arguments ask for. -/
def readCommand (arguments : Arguments) : IO Command := do
  let config ← arguments.config.mapM readFile
  let trace ← readFile (arguments.trace.getD "")
  return { trace, config, resolveDelay := arguments.resolveDelay, dump := arguments.dump }

/-- Runs the command and prints what comes of it. -/
def runCommand (command : Command) : IO UInt32 := do
  let start ← IO.monoNanosNow
  let result ← IO.lazyPure fun _ => command.run
  let stop ← IO.monoNanosNow
  let printed := Command.print result ((stop - start).toFloat / 1e9)
  IO.print printed.output
  IO.eprint printed.errors
  return UInt32.ofNat printed.exitCode

end BranchSelector.Main

open BranchSelector Main in
def main (arguments : List String) : IO UInt32 :=
  match Arguments.ofList? arguments with
  | some arguments => do runCommand (← readCommand arguments)
  | none => do
    IO.eprintln Arguments.usage
    return 2
