import Sm83.Run
import Sm83.Text.Numeral

/-!
The arguments of the command line: the path of an image, and optionally the greatest number of steps
to take.
-/

namespace Sm83.CommandLine

/-- What the arguments ask for. -/
structure Arguments where
  path : String
  config : Config

/-- Why arguments are refused. -/
inductive ArgumentError
  | missingPath
  | invalidMaxSteps (text : String) (cause : Text.Numeral.Error)
deriving DecidableEq

/-- The refusal with its cause. -/
def ArgumentError.message : ArgumentError → String
  | .missingPath => "missing image path; usage: dotmatrix <image-path> [max-steps]"
  | .invalidMaxSteps text cause =>
    "invalid max-steps '" ++ text ++ "'; expected an integer: " ++ cause.message

/-- Reads the arguments. A step count of zero stands for no bound, the report is always logged, and
arguments behind the second do not matter. -/
def Arguments.parse : List String → Except ArgumentError Arguments
  | [] => .error .missingPath
  | [path] => .ok { path, config := { dumpState := true } }
  | path :: text :: _ =>
    match Text.Numeral.read text.toList with
    | .error cause => .error (.invalidMaxSteps text cause)
    | .ok steps =>
      let maxSteps := if steps = 0 then none else some steps
      .ok { path, config := { maxSteps, dumpState := true } }

end Sm83.CommandLine
