import Sm83.CommandLine.Response

/-!
The command line program: it reads the file that the arguments name and prints the answer. Failures
that the library does not know of end in exit code 1 as well.
-/

namespace Sm83.CommandLine

/-- Why a file could not be read, in the words of the system. -/
def causeOf : IO.Error → String
  | .permissionDenied _ code details | .inappropriateType _ code details
  | .invalidArgument _ code details | .resourceExhausted _ code details
  | .hardwareFault code details | .otherError code details => s!"{details} (os error {code})"
  | e => toString e

/-- What a file holds, or nothing if there is no file. Whatever else keeps it from being read is
thrown. -/
def contentsOf (path : String) : IO (Option ByteArray) := do
  try
    let file ← IO.FS.Handle.mk path .read
    return some (← file.readBinToEnd)
  catch
    | .noFileOrDirectory .. => return none
    | e => throw (.userError (LoadError.message { path, cause := causeOf e }))

/-- Prints the answer to the arguments and gives back its exit code. -/
def answer (args : List String) : IO UInt32 := do
  let contents ←
    match Arguments.parse args with
    | .ok asked => contentsOf asked.path
    | .error _ => pure none
  match respond args contents with
  | some response =>
    IO.print response.stdout
    IO.eprint response.stderr
    return response.exitCode.toUInt32
  | none => throw (.userError "the run has no end")

end Sm83.CommandLine

def main (args : List String) : IO UInt32 := do
  try
    Sm83.CommandLine.answer args
  catch e =>
    IO.eprintln e
    return 1
