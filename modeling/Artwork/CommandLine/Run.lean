import Artwork.CommandLine.Arguments
import Artwork.CommandLine.Json
import Artwork.Import.Stream
import Artwork.Summary

/-!
**Running a command.**

A command reads one content stream, from a file or from the standard input, and prints what came of
it.  Here the content is given; fetching it is left to the caller.

Main definitions:

* `Source`, `Request.source` — where the content comes from;
* `Content` — what was found there;
* `Outcome` — exit code and output;
* `Request.outcome`, `Invocation.outcome` — **what a command prints**.
-/

set_option relaxedAutoImplicit false
set_option autoImplicit false

namespace Artwork

/-- Where the content of a request comes from. -/
inductive Source where
  | standardInput
  | file (path : String)
  deriving Repr, DecidableEq

/-- What was found at a source. -/
inductive Content where
  | bytes (bytes : List UInt8)
  /-- There is no such file. -/
  | missing
  /-- The file cannot be read; `reason` is what the system says. -/
  | unreadable (reason : String)
  deriving Repr, DecidableEq

/-- What a command leaves behind. -/
structure Outcome where
  code : UInt32
  output : String
  errors : String
  deriving Repr, DecidableEq

namespace Outcome

/-- A command that went well. -/
def success (output : String) : Outcome :=
  ⟨0, output, ""⟩

/-- A command that failed, and why. -/
def failure (reason : String) : Outcome :=
  ⟨1, "", "Error: " ++ reason ++ "\n"⟩

end Outcome

/-- A path is the standard input if it is a lone dash, apart from slashes and dots at its end. -/
def isStandardInput (path : String) : Bool :=
  match path.splitOn "/" with
  | first :: rest => first == "-" && rest.all fun part => part.isEmpty || part == "."
  | [] => false

namespace Request

/-- Where the content comes from. -/
def source (r : Request) : Source :=
  if isStandardInput r.file then .standardInput else .file r.file

/-- The layout of the content, or why there is none. -/
def layout (union : ContourUnion Float) (r : Request) : Content → Except String Layout
  | .missing => .error ("file not found: " ++ r.file)
  | .unreadable reason =>
    (importFile union r.options (.error reason)).mapError ImportError.message
  | .bytes bytes => (importFile union r.options (.ok bytes)).mapError ImportError.message

/-- A hole as a row of a table. -/
def drillRow (d : Drill Float) : String :=
  "\t".intercalate [fixedText 5 d.center.x, fixedText 5 d.center.y, fixedText 5 d.diameter] ++ "\n"

/-- A layout in the format of a command. -/
def print (command : Command) (layout : Layout) : String :=
  match command with
  | .layoutJson => Json.layout layout ++ "\n"
  | .summary => layout.summary.text ++ "\n"
  | .drillTable => String.join (layout.drills.map drillRow)
  | .drillJson => Json.drills layout.drills ++ "\n"

/-- **What a command prints** for the content at its source. -/
def outcome (union : ContourUnion Float) (r : Request) (content : Content) : Outcome :=
  match r.layout union content with
  | .ok layout => .success (print r.command layout)
  | .error reason => .failure reason

end Request

/-- The name and the version of the program. -/
def versionText : String := "pdfcam 0.2.0\n"

/-- How the program is used. -/
def usageText : String :=
  "Usage: pdfcam import FILE [--format json|summary] [OPTIONS]\n"
    ++ "       pdfcam drills FILE [--format text|json] [OPTIONS]\n"
    ++ "Options: --unit mm|in, --steps N, --start-id N\n"
    ++ "A dash in place of FILE reads the standard input.\n"

/-- **What the program prints**; `fetch` gives the content of a source. -/
def Invocation.outcome {m : Type → Type} [Monad m] (union : ContourUnion Float)
    (fetch : Source → m Content) : Invocation → m Outcome
  | run request => do
    let content ← fetch request.source
    return request.outcome union content
  | help => return .success usageText
  | version => return .success versionText
  | misuse => return ⟨2, "", usageText⟩

end Artwork
