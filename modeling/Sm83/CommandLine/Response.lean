import Sm83.CommandLine.Arguments
import Sm83.CommandLine.Image

/-!
What the command line answers: the report of the run, or the reason why there was none. Its log has
no threshold, so nothing of what is told on the way is kept.
-/

namespace Sm83.CommandLine

/-- An answer of the command line. -/
structure Response where
  exitCode : UInt8
  stdout : String := ""
  stderr : String := ""
deriving DecidableEq

/-- The answer to the arguments, given what the file they name holds, if there is one. There is no
answer when the run never ends. -/
def respond (args : List String) (contents : Option ByteArray) : Option Response :=
  match Arguments.parse args with
  | .error e => some { exitCode := 2, stderr := e.message ++ "\n" }
  | .ok asked =>
    match loadImage asked.path contents {} with
    | .error e => some { exitCode := 1, stderr := e.message ++ "\n" }
    | .ok (image, log) =>
      match asked.config.run image (log.emit (.chosen asked.path)) with
      | none => none
      | some (report, _) => some { exitCode := 0, stdout := report.text ++ "\n" }

end Sm83.CommandLine
