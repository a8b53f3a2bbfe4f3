import Artwork.Plane.Ring
import Artwork.Paint
import Artwork.Path
import Artwork.Decimal.Notation

/-!
**From painted subpaths to polygons.**

A filled subpath is one contour, whose inside the fill rule decides.  A stroked subpath is covered by
simple pieces, a rectangle along every edge and a circle around every vertex, so that joins and ends
are round; all pieces run counter-clockwise and the outline is their union.  The union of contours is
a parameter here: nothing in this module depends on how it is found.

Main definitions:

* `ContourUnion` — contours and a fill rule to shapes;
* `GeometryError` — why a subpath gives no polygon;
* `distinctVertices` — a polyline without repeated vertices;
* `strokeContours`, `strokePolyline`, `fillPolygon` — **outlining and filling a polyline**;
* `Resolution`, `Batch` — how finely curves are drawn, and what a painting operator produces;
* `PendingPath.paint` — painting all subpaths of a path.
-/

set_option relaxedAutoImplicit false
set_option autoImplicit false

namespace Artwork

/-- The union of contours under a fill rule: a list of shapes, each the contours of one
connected area, its outer border first. -/
abbrev ContourUnion (K : Type) : Type :=
  List (List (Point K)) → FillRule → List (List (List (Point K)))

/-- Why a subpath gives no polygon. -/
inductive GeometryError (K : Type) where
  /-- It has fewer distinct vertices than it takes. -/
  | tooFewPoints (found required : Nat)
  /-- The width of a stroke is not a positive finite number. -/
  | nonPositiveWidth (width : K)
  /-- The union covers no area. -/
  | emptyResult
  deriving Repr, DecidableEq

/-- The reason in words. -/
def GeometryError.message : GeometryError Float → String
  | tooFewPoints found required =>
    "degenerate subpath: " ++ toString found ++ " distinct points, need " ++ toString required
  | nonPositiveWidth width => "cannot stroke with width " ++ plainText width
  | emptyResult => "geometry has no area"

variable {K : Type} [Scalar K]

/-! ### Vertices -/

/-- Vertices that differ by no more than one part in 10⁹ of the unit along each axis count as
one. -/
def vertexTolerance : K :=
  1 / ((1000000000 : Nat) : K)

/-- Two vertices that count as one. -/
@[inline] def sameVertex (p q : Point K) : Bool :=
  p.near vertexTolerance q

/-- A polyline that begins and ends at the same vertex and has another one between. -/
def endsAtStart (ps : List (Point K)) : Bool :=
  match ps.head?, ps.getLast? with
  | some first, some last => 2 < ps.length && sameVertex first last
  | _, _ => false

/-- Drops the points that are the same vertex as the point last kept, which is `kept` at
first. -/
def thinAfter (kept : Point K) : List (Point K) → List (Point K)
  | [] => []
  | p :: ps => if sameVertex kept p then thinAfter kept ps else p :: thinAfter p ps

/-- Drops the last of several vertices if it is the same as the first. -/
def dropClosing (ps : List (Point K)) : List (Point K) :=
  match ps.head?, ps.getLast? with
  | some first, some last => if 1 < ps.length && sameVertex first last then ps.dropLast else ps
  | _, _ => ps

/-- The vertices of a polyline: repeated points are dropped, and so is a return to the start. -/
def distinctVertices : List (Point K) → List (Point K)
  | [] => []
  | p :: ps => dropClosing (p :: thinAfter p ps)

/-! ### Contours -/

/-- The regular polygon of `steps` vertices that stands for a circle. -/
def circle [Trigonometric K] (center : Point K) (radius : K) (steps : Nat) : List (Point K) :=
  (List.range steps).map fun (i : Nat) =>
    let angle : K := Trigonometric.turn * (i : K) / (steps : K)
    ⟨center.x + radius * Trigonometric.cos angle, center.y + radius * Trigonometric.sin angle⟩

/-- The edges of a polyline; a closed one has an edge from its last vertex to its first. -/
def edges (closed : Bool) (ps : List (Point K)) : List (Point K × Point K) :=
  if closed then cyclicPairs ps else ps.zip ps.tail

/-- The rectangle of all points within `radius` of an edge, measured across it.  An edge without
length has none. -/
def edgeContour? [Trigonometric K] (radius : K) (a b : Point K) : Option (List (Point K)) :=
  let d := b - a
  if d.length ≤ vertexTolerance then none
  else
    let n : Point K := ⟨-d.y / d.length * radius, d.x / d.length * radius⟩
    some (counterClockwise [a + n, b + n, b - n, a - n])

/-- The pieces that **cover a stroke**: a rectangle along every edge, then a circle around every
vertex. -/
def strokeContours [Trigonometric K] (closed : Bool) (radius : K) (circleSteps : Nat)
    (vertices : List (Point K)) : List (List (Point K)) :=
  (edges closed vertices).filterMap (fun (a, b) => edgeContour? radius a b)
    ++ vertices.map fun p => counterClockwise (circle p radius circleSteps)

/-! ### Polygons -/

/-- A shape as a polygon.  Contours of fewer than three points are not rings. -/
def polygonOfShape? (shape : List (List (Point K))) : Option (Polygon K) :=
  match (shape.filter (3 ≤ ·.length)).map Ring.closed with
  | [] => none
  | exterior :: holes => some ⟨exterior, holes⟩

/-- The union of the contours as polygons, of which there has to be one. -/
def unite (union : ContourUnion K) (contours : List (List (Point K))) (rule : FillRule) :
    Except (GeometryError K) (List (Polygon K)) :=
  match (union contours rule).filterMap polygonOfShape? with
  | [] => .error .emptyResult
  | polygons => .ok polygons

/-- The polygons that a pen of the given width covers along a polyline.  A polyline that returns to
its start is **closed in any case**. -/
def strokePolyline [Trigonometric K] (union : ContourUnion K) (closed : Bool) (width : K)
    (circleSteps : Nat) (ps : List (Point K)) : Except (GeometryError K) (List (Polygon K)) :=
  let vertices := distinctVertices ps
  if !(Scalar.isFinite width && 0 < width) then .error (.nonPositiveWidth width)
  else if vertices.length < 2 then .error (.tooFewPoints vertices.length 2)
  else
    let closed := closed || endsAtStart ps
    unite union (strokeContours closed (width / ((2 : Nat) : K)) circleSteps vertices) .nonzero

/-- The polygons inside a polyline, which is closed for this purpose. -/
def fillPolygon (union : ContourUnion K) (rule : FillRule) (ps : List (Point K)) :
    Except (GeometryError K) (List (Polygon K)) :=
  let vertices := distinctVertices ps
  if vertices.length < 3 then .error (.tooFewPoints vertices.length 3)
  else unite union [vertices] rule

/-! ### Painting -/

/-- How finely circles and curves are approximated. -/
structure Resolution where
  /-- Vertices of a circle. -/
  circle : Nat
  /-- Samples of a curve segment. -/
  curve : Nat
  deriving Repr, DecidableEq

/-- The resolution raised to what geometry needs: a circle has at least three vertices, a curve
at least one sample. -/
def Resolution.atLeast (circle curve : Nat) : Resolution :=
  ⟨max circle 3, max curve 1⟩

/-- The points of a subpath, its curves replaced by polylines. -/
def Subpath.polyline (curveSteps : Nat) : Subpath K → List (Point K)
  | lines ps | rectangle ps => ps
  | curves chain => Segment.polyline curveSteps chain

/-- What one painting operator produces: polygons, and the reasons for those that are missing. -/
@[ext] structure Batch (K : Type) where
  fill : List (Polygon K)
  stroke : List (Polygon K)
  skipped : List (GeometryError K)
  deriving Repr, DecidableEq

namespace Batch

omit [Scalar K]

/-- The batch of nothing. -/
def empty : Batch K :=
  ⟨[], [], []⟩

/-- There is no polygon in the batch. -/
def isEmpty (b : Batch K) : Bool :=
  b.fill.isEmpty && b.stroke.isEmpty

/-- Adds the polygons of a filling, or the reason why there are none. -/
def addFill (b : Batch K) : Except (GeometryError K) (List (Polygon K)) → Batch K
  | .ok polygons => { b with fill := b.fill ++ polygons }
  | .error e => { b with skipped := b.skipped ++ [e] }

/-- Adds the polygons of an outline, or the reason why there are none. -/
def addStroke (b : Batch K) : Except (GeometryError K) (List (Polygon K)) → Batch K
  | .ok polygons => { b with stroke := b.stroke ++ polygons }
  | .error e => { b with skipped := b.skipped ++ [e] }

end Batch

omit [Scalar K] in
/-- The subpaths of a path in the order of painting, the closed ones first, each with whether it is
closed. -/
def PendingPath.pieces (path : PendingPath K) : List (Subpath K × Bool) :=
  path.closed.map (·, true) ++ path.opened.toList.map (·, false)

section Painting

variable [Trigonometric K]

/-- Paints one subpath and adds what comes of it: it is filled first and outlined then, as far as
the operator does either.  A rectangle is closed in any case. -/
def Batch.addPiece (union : ContourUnion K) (resolution : Resolution) (painting : Painting)
    (width : K) (b : Batch K) (piece : Subpath K × Bool) : Batch K :=
  let ps := piece.1.polyline resolution.curve
  let filled := match painting.fillRule? with
    | some rule => b.addFill (fillPolygon union rule ps)
    | none => b
  if painting.strokes then
    filled.addStroke
      (strokePolyline union (piece.2 || piece.1.kind == .rectangle) width resolution.circle ps)
  else filled

/-- Paints the subpaths of a path one after the other. -/
def PendingPath.paint (union : ContourUnion K) (resolution : Resolution) (painting : Painting)
    (width : K) (path : PendingPath K) : Batch K :=
  path.pieces.foldl (Batch.addPiece union resolution painting width) .empty

end Painting

end Artwork
