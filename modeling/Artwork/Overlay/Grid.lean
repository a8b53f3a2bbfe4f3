import Artwork.Plane.Box
import Artwork.Decimal.Binary

/-!
**The grid on which contours are united.**

Contours are united exactly, on whole coordinates.  The grid is laid over the box of all their points
so that half the longer side of the box is between `2 ^ 29` and `2 ^ 30` grid units: a unit is about
a billionth of the drawing.

Main definitions:

* `Site` — a point of the grid;
* `Grid.around?` — the grid over a list of points;
* `Grid.snap`, `Grid.placeCoordinate` — **to the grid and back**.
-/

set_option relaxedAutoImplicit false
set_option autoImplicit false

namespace Artwork.Overlay

/-- A point of the grid, or the vector from one to another. -/
structure Site where
  x : Int
  y : Int
  deriving Repr, DecidableEq, Hashable

namespace Site

instance : Sub Site where
  sub p q := ⟨p.x - q.x, p.y - q.y⟩

/-- The cross product of two vectors: positive when `q` points to the left of `p`. -/
def cross (p q : Site) : Int :=
  p.x * q.y - p.y * q.x

/-- The order of sites by `x`, and by `y` where that is the same. -/
def before (p q : Site) : Bool :=
  p.x < q.x || p.x == q.x && p.y < q.y

end Site

/-- A grid: where its origin lies, and how many units there are in a length of one, as a power
of two. -/
structure Grid where
  origin : Point Float
  scale : Int
  deriving Repr

namespace Grid

/-- The grid over a box. -/
def ofBox (box : Box Float) : Grid :=
  let half : Point Float := ⟨box.width * 0.5, box.height * 0.5⟩
  let largest := Scalar.greater half.x half.y
  { origin := ⟨box.x0 + half.x, box.y0 + half.y⟩
    scale := 29 - ((Binary.ofFloat largest).logFloor?.getD 29) }

/-- The grid over the box of some points. -/
def around? (ps : List (Point Float)) : Option Grid :=
  (Box.ofPoints? ps).map ofBox

/-- The grid coordinate nearest to a coordinate. -/
def snapCoordinate (g : Grid) (origin x : Float) : Int :=
  ((Binary.ofFloat (x - origin)).nearestShift? g.scale).getD 0

/-- The **site nearest** to a point. -/
def snap (g : Grid) (p : Point Float) : Site :=
  ⟨g.snapCoordinate g.origin.x p.x, g.snapCoordinate g.origin.y p.y⟩

/-- A coordinate between grid lines is given to a part in a million of the unit. -/
def fractionBits : Nat := 20

/-- The coordinate that is `numerator / denominator` grid units from the origin. -/
def placeCoordinate (g : Grid) (origin : Float) (numerator : Int) (denominator : Nat) : Float :=
  let fine := numerator * (1 <<< fractionBits : Nat) / denominator
  (Float.ofInt fine).scaleB (-(g.scale + fractionBits)) + origin

end Grid

end Artwork.Overlay
