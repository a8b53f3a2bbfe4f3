import Artwork.Import.Context
import Artwork.Text.Utf8

/-!
**Importing a content stream.**

A content stream is read line by line, and lines end at carriage returns and line feeds.  Before every
line that is not empty the caller is asked whether to go on; a stream is either read to its end, or it
gives no layout at all.

Main definitions:

* `AbortSignal` — the answers of the caller;
* `importWith` — **an import with any union of contours**, and how often the caller was asked;
* `importText`, `importBytes`, `importFile` — the import of a text, and of the content of a file.
-/

set_option relaxedAutoImplicit false
set_option autoImplicit false

namespace Artwork

/-- The answers to the question whether to stop, in the order of asking. -/
abbrev AbortSignal := Nat → Bool

/-- The characters that end a line. -/
def isLineBreak (c : Char) : Bool :=
  c == '\r' || c == '\n'

/-- The lines of a text that are not empty. -/
def lines (text : List Char) : List (List Char) :=
  runs isLineBreak text

/-- Follows lines until the caller wants to stop.  `asked` counts the questions. -/
def followLines (union : ContourUnion Float) (abort : AbortSignal) :
    (asked : Nat) → Context → List (List Char) → Except ImportError Context × Nat
  | asked, c, [] => (.ok c, asked)
  | asked, c, line :: rest =>
    if abort asked then (.error .cancelled, asked + 1)
    else followLines union abort (asked + 1) (c.applyLine union line) rest

/-- **Imports a text**: the layout, and how often the caller was asked whether to stop. -/
def importWith (union : ContourUnion Float) (options : ImportOptions) (abort : AbortSignal)
    (text : List Char) : Except ImportError Layout × Nat :=
  match Context.start options with
  | .error e => (.error e, 0)
  | .ok c =>
    let (result, asked) := followLines union abort 0 c (lines text)
    (result.map Context.finish, asked)

/-- Imports a text to its end. -/
def importText (union : ContourUnion Float) (options : ImportOptions) (text : String) :
    Except ImportError Layout :=
  (importWith union options (fun _ => false) text.toList).1

/-- Imports the bytes of a file to their end. -/
def importBytes (union : ContourUnion Float) (options : ImportOptions) (bytes : List UInt8) :
    Except ImportError Layout :=
  (importWith union options (fun _ => false) (Utf8.decode bytes)).1

/-- Imports the content of a file, or says why it could not be read. -/
def importFile (union : ContourUnion Float) (options : ImportOptions)
    (content : Except String (List UInt8)) : Except ImportError Layout :=
  match content with
  | .error reason => .error (.system reason)
  | .ok bytes => importBytes union options bytes

end Artwork
