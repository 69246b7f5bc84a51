import Sm83.Log

/-!
Images read from files.
-/

namespace Sm83.CommandLine

/-- Why the file at a path could not be read. -/
structure LoadError where
  path : String
  cause : String := "No such file or directory (os error 2)"

/-- The refusal with its cause. -/
def LoadError.message (e : LoadError) : String :=
  "failed to read image '" ++ e.path ++ "': " ++ e.cause

/-- Takes what a file holds, if there is one, as an image. All of it is taken, with a warning when it
does not fit into memory. -/
def loadImage (path : String) (contents : Option ByteArray) (log : Log) :
    Except LoadError (ByteArray × Log) :=
  match contents with
  | none => .error { path }
  | some image =>
    .ok (image, if Memory.size < image.size then log.emit (.oversized image.size) else log)

end Sm83.CommandLine
