import Artwork.Overlay.Tracing
import Artwork.Outline

/-!
**The union of contours.**

A hole belongs to the innermost exterior around it.  Exteriors, and the holes of one exterior, are
listed by their smallest points.

Main definitions:

* `Loop` — a ring by its corners, with its smallest point;
* `Loop.windsAround` — the points that lie in a loop;
* `shapes` — **exteriors with their holes**;
* `union` — the union of contours of doubles.
-/

set_option relaxedAutoImplicit false
set_option autoImplicit false

namespace Artwork.Overlay

/-- A ring by its corners.  `least` is the smallest of them, and `beside` is a point in the middle
of a piece of the ring. -/
structure Loop where
  isExterior : Bool
  corners : List Corner
  least : Vertex
  beside : Vertex

namespace Vertex

/-- The point half way between two. -/
def midpoint (p q : Vertex) : Vertex :=
  reduced (p.x * q.d + q.x * p.d) (p.y * q.d + q.y * p.d) (2 * p.d * q.d)

/-- The vector from `q` to `p`, times both denominators. -/
def scaledDifference (p q : Vertex) : Site :=
  ⟨p.x * q.d - q.x * p.d, p.y * q.d - q.y * p.d⟩

end Vertex

namespace Loop

/-- The loop of a ring. -/
def ofRing? (ring : TracedRing) : Option Loop :=
  match ring.steps, Overlay.corners ring.steps with
  | step :: _, c :: cs =>
    some
      { isExterior := ring.isExterior
        corners := c :: cs
        least := cs.foldl (fun p c => if c.point.before p then c.point else p) c.point
        beside := step.start.midpoint step.stop }
  | _, _ => none

/-- The order of loops by their smallest corners. -/
def atMost (a b : Loop) : Bool :=
  !b.least.before a.least

/-- The loop winds around a point that is not on it: a ray downwards from the point crosses the
loop more often in one direction than in the other. -/
def windsAround (l : Loop) (p : Vertex) : Bool :=
  let crossings := (cyclicPairs l.corners).foldl (fun (n : Int) (a, b) =>
    let afterA := 0 < (p.scaledDifference a.point).x
    let afterB := 0 < (p.scaledDifference b.point).x
    let side := a.leaving.cross (p.scaledDifference a.point)
    if afterA && !afterB then (if 0 < side then n + 1 else n)
    else if afterB && !afterA then (if side < 0 then n - 1 else n)
    else n) 0
  crossings ≠ 0

end Loop

/-- Exteriors, each followed by its **holes**. -/
def shapes (loops : List Loop) : List (List Loop) :=
  let (exteriors, holes) := (loops.mergeSort Loop.atMost).partition (·.isExterior)
  let owned := holes.filterMap fun hole =>
    (exteriors.zipIdx.filter fun (l, _) => l.windsAround hole.beside).getLast?.map
      fun (_, i) => (i, hole)
  exteriors.zipIdx.map fun (exterior, i) =>
    exterior :: owned.filterMap fun (j, hole) => if i == j then some hole else none

/-- A loop in the coordinates of the drawing. -/
def Grid.placeLoop (g : Grid) (l : Loop) : List (Point Float) :=
  l.corners.map fun c =>
    ⟨g.placeCoordinate g.origin.x c.point.x c.point.d,
      g.placeCoordinate g.origin.y c.point.y c.point.d⟩

/-- The union of contours under a fill rule. -/
def union : ContourUnion Float := fun contours rule =>
  match Grid.around? contours.flatten with
  | none => []
  | some grid =>
    let edges := Edge.gather <|
      contours.flatMap fun contour => Edge.ofContour (contour.map grid.snap)
    match EdgeTree.ofEdges edges with
    | none => []
    | some tree =>
      let loops := (rings (border rule tree (arcs edges tree))).filterMap Loop.ofRing?
      (shapes loops).map (·.map grid.placeLoop)

end Artwork.Overlay
