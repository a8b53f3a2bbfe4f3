import Artwork.Import.Options
import Artwork.Layer.Builder
import Artwork.Operator.Line

/-!
**Following the operators of a content stream.**

Main definitions:

* `Context` — everything that one operator leaves behind for the next;
* `Context.apply` — **one operator**;
* `Context.paint` — a painting operator: the path becomes polygons, the polygons go to their layers.
-/

set_option relaxedAutoImplicit false
set_option autoImplicit false

namespace Artwork

/-- The state of an import between two operators. -/
structure Context where
  /-- The length of a point in the unit of the output. -/
  factor : Float
  resolution : Resolution
  graphics : StateStack Float
  path : Path Float
  layers : LayerBuilder
  strokeColor : Color Float
  fillColor : Color Float

namespace Context

/-- The state at the beginning of an import. -/
def initial (options : ImportOptions) : Context :=
  { factor := options.unit.pointsFactor
    resolution := options.resolution
    graphics := .initial options.unit.pointsFactor
    path := .empty
    layers := .new options.startId
    strokeColor := .black
    fillColor := .black }

/-- The state at the beginning of an import, if the options can be used. -/
def start (options : ImportOptions) : Except ImportError Context :=
  if options.curveSteps = 0 then .error .noCurveSteps else .ok (initial options)

/-- Adds what a painting operator has produced.  Fillings in exact white are clear, and outlines
never are. -/
def addBatch (c : Context) (batch : Batch Float) : Context :=
  let width := c.graphics.current.lineWidth
  let filled := c.layers.classify batch.fill width c.fillColor.isWhite c.strokeColor
  { c with layers := filled.classify batch.stroke width false c.strokeColor }

/-- Paints the path, which is empty afterwards. -/
def paint (union : ContourUnion Float) (c : Context) (painting : Painting) : Context :=
  let taken := c.path.takeForPaint
  let painted := { c with path := taken.rest }
  match taken.pending with
  | none => painted
  | some pending =>
    painted.addBatch
      (pending.paint union c.resolution painting c.graphics.current.lineWidth)

/-- Painting in terms of what the path hands over: the path is empty afterwards in any case. -/
theorem paint_eq_match (union : ContourUnion Float) (c : Context) (painting : Painting) :
    c.paint union painting =
      match c.path.pending? with
      | none => { c with path := .empty }
      | some pending =>
        { c with path := .empty }.addBatch
          (pending.paint union c.resolution painting c.graphics.current.lineWidth) := by
  simp only [paint, Path.takeForPaint, Path.discard_eq_empty]

/-- One step of path construction. -/
def construct (c : Context) (step : Construction Float) : Context :=
  { c with path := c.path.step (step.map c.graphics.current c.factor) }

/-- Follows **one operator**. -/
def apply (union : ContourUnion Float) (c : Context) : Operator Float → Context
  | .strokeColor color => { c with strokeColor := color, layers := c.layers.observe color }
  | .fillColor color => { c with fillColor := color }
  | .transform saving matrix =>
    let graphics := if saving then c.graphics.save else c.graphics
    { c with graphics := graphics.concat matrix }
  | .save => { c with graphics := c.graphics.save }
  | .restore => { c with graphics := c.graphics.restore }
  | .lineWidth width => { c with graphics := c.graphics.setLineWidth c.factor width }
  | .construct step => c.construct step
  | .endPath => { c with path := c.path.discard }
  | .stroke => c.paint union .stroke
  | .closeStroke => (c.construct .closePath).paint union .stroke
  | .fill rule => c.paint union (.fill rule)
  | .fillStroke rule => c.paint union (.fillAndStroke rule)
  | .closeFillStroke rule => (c.construct .closePath).paint union (.fillAndStroke rule)

/-- Follows a line; one that is no operator changes nothing. -/
def applyLine (union : ContourUnion Float) (c : Context) (line : List Char) : Context :=
  match classify line with
  | some op => c.apply union op
  | none => c

/-- The layout of everything painted so far. -/
def finish (c : Context) : Layout :=
  c.layers.finish

end Context

end Artwork
