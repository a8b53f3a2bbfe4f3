import Artwork.CommandLine.Run
import Artwork.Overlay.Shapes

/-!
**The program.**  It fetches the content of the source that its arguments name, and prints the
outcome.
-/

set_option relaxedAutoImplicit false
set_option autoImplicit false

namespace Artwork

/-- Reads a stream to its end. -/
partial def readAll (stream : IO.FS.Stream) (read : ByteArray) : IO ByteArray := do
  let more ← stream.read 65536
  if more.isEmpty then return read else readAll stream (read ++ more)

/-- The number by which the system says that something is a directory. -/
def isDirectoryCode : UInt32 := 21

/-- The words and the number of an error of the system. -/
def systemReason (details : String) (code : UInt32) : String :=
  details ++ " (os error " ++ toString code ++ ")"

/-- What was found at a path that could not be read.  A path that is too long, turns in a circle or
goes on below a file leads nowhere; a directory is found, but it has no content. -/
def contentOfError : IO.Error → Content
  | .noFileOrDirectory .. | .invalidArgument .. => .missing
  | .inappropriateType _ code details =>
    if code == isDirectoryCode then .unreadable (systemReason details code) else .missing
  | .permissionDenied _ code details
  | .hardwareFault code details
  | .otherError code details => .unreadable (systemReason details code)
  | e => .unreadable (toString e)

/-- Fetches the content of a source. -/
def fetch : Source → IO Content
  | .standardInput => do
    return .bytes (← readAll (← IO.getStdin) .empty).toList
  | .file path => do
    try
      return .bytes (← IO.FS.readBinFile path).toList
    catch e => return contentOfError e

end Artwork

/-- Runs the command that the arguments ask for. -/
def main (arguments : List String) : IO UInt32 := do
  let outcome ← (Artwork.Invocation.ofArguments arguments).outcome
    Artwork.Overlay.union Artwork.fetch
  IO.print outcome.output
  IO.eprint outcome.errors
  return outcome.code
