import Artwork.Outline

/-!
**What an import can be asked for, and how it can fail.**

Main definitions:

* `LengthUnit` — the unit of the output, and the length of a point in it;
* `ImportOptions` — the unit, the fineness of curves, and the first name of an aperture;
* `ImportError` — why there is no layout.
-/

set_option relaxedAutoImplicit false
set_option autoImplicit false

namespace Artwork

/-- The unit of coordinates and widths in the output. -/
inductive LengthUnit where
  | millimeter
  | inch
  deriving Repr, DecidableEq

namespace LengthUnit

/-- The length of a point, of which there are 72 to the inch. -/
def pointsFactor : LengthUnit → Float
  | millimeter => 25.4 / 72
  | inch => 1 / 72

/-- The abbreviation of the unit. -/
def name : LengthUnit → String
  | millimeter => "mm"
  | inch => "in"

end LengthUnit

/-- What an import is asked for. -/
structure ImportOptions where
  unit : LengthUnit := .millimeter
  /-- Samples of a curve segment and vertices of a circle. -/
  curveSteps : Nat := 64
  /-- The number that names the first aperture. -/
  startId : UInt32 := 10
  deriving Repr, DecidableEq

namespace ImportOptions

/-- The vertices of a circle, of which there are at least eight. -/
def circleSteps (o : ImportOptions) : Nat :=
  max o.curveSteps 8

/-- The samples of a curve segment. -/
def bezierSteps (o : ImportOptions) : Nat :=
  max o.curveSteps 1

/-- How finely circles and curves are approximated. -/
def resolution (o : ImportOptions) : Resolution :=
  .atLeast o.circleSteps o.bezierSteps

end ImportOptions

/-- Why an import gives no layout. -/
inductive ImportError where
  /-- It was asked to stop. -/
  | cancelled
  /-- Curves without samples were asked for. -/
  | noCurveSteps
  /-- The system failed: the content could not be read, or no thread was to be had.  `reason` is what
  it says. -/
  | system (reason : String)
  /-- An import in the background broke down. -/
  | workerPanicked
  deriving Repr, DecidableEq

namespace ImportError

/-- The import was asked to stop. -/
def isCancelled : ImportError → Bool
  | cancelled => true
  | _ => false

/-- The reason in words. -/
def message : ImportError → String
  | cancelled => "import cancelled"
  | noCurveSteps => "invalid import options: curve_steps must be at least 1"
  | system reason => "I/O error: " ++ reason
  | workerPanicked => "import worker panicked"

end ImportError

end Artwork
