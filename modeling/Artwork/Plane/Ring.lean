import Artwork.Plane.Box

/-!
**Closed rings, polygons with holes, and their areas.**

A list of points is read as a closed outline: after its last point comes the first again.  The pairs
of neighbours on the way round are `cyclicPairs`; the area is a sum over them.

Main definitions:

* `cyclicPairs` — the pairs of neighbours of a list that closes on itself;
* `signedArea` — the area inside an outline, positive when it runs counter-clockwise;
* `Ring` — a closed outline that repeats its first point at the end;
* `Polygon` — an exterior ring and the rings of its holes.
-/

set_option relaxedAutoImplicit false
set_option autoImplicit false

namespace Artwork

/-- Each member of a list with the one after it, the last member with the first. -/
def cyclicPairs {α : Type} : List α → List (α × α)
  | [] => []
  | a :: as => (a :: as).zip (as ++ [a])

section Area

variable {K : Type} [Scalar K]

/-- The signed area inside an outline, by the sum of cross products over its edges: positive for
a counter-clockwise outline, zero for one of fewer than three points. -/
def signedArea (ps : List (Point K)) : K :=
  if ps.length < 3 then 0
  else (cyclicPairs ps).foldl (fun sum (p, q) => sum + (p.x * q.y - q.x * p.y)) 0 / (2 : Nat)

/-- The outline turned, where necessary, so that it does not run clockwise. -/
def counterClockwise (ps : List (Point K)) : List (Point K) :=
  if signedArea ps < 0 then ps.reverse else ps

end Area

/-- A closed outline.  The last point repeats the first. -/
structure Ring (K : Type) where
  points : List (Point K)
  deriving Repr, BEq, DecidableEq

namespace Ring

variable {K : Type} [Scalar K]

/-- The ring through the points, with the first repeated at the end unless it stands there
already. -/
def closed (ps : List (Point K)) : Ring K :=
  match ps.head?, ps.getLast? with
  | some first, some last => if first != last then ⟨ps ++ [first]⟩ else ⟨ps⟩
  | _, _ => ⟨ps⟩

/-- The signed area inside the ring. -/
def signedArea (r : Ring K) : K :=
  Artwork.signedArea r.points

/-- The smallest box around the ring. -/
def box? (r : Ring K) : Option (Box K) :=
  Box.ofPoints? r.points

end Ring

/-- A polygon: what lies inside the exterior ring and inside none of the holes. -/
structure Polygon (K : Type) where
  exterior : Ring K
  holes : List (Ring K)
  deriving Repr, BEq, DecidableEq

namespace Polygon

variable {K : Type} [Scalar K]

/-- The polygon of a list of outlines, the first of which is the exterior. -/
def ofRings (rings : List (List (Point K))) : Polygon K :=
  match rings with
  | [] => ⟨⟨[]⟩, []⟩
  | exterior :: holes => ⟨.closed exterior, holes.map .closed⟩

/-- The area of the exterior less the areas of the holes, whatever way the rings run. -/
def area (p : Polygon K) : K :=
  Scalar.magnitude p.exterior.signedArea
    - p.holes.foldl (fun sum r => sum + Scalar.magnitude r.signedArea) 0

/-- The smallest box around the polygon. -/
def box? (p : Polygon K) : Option (Box K) :=
  p.exterior.box?

end Polygon

end Artwork
