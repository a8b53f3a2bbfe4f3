import Artwork.Layer.Aperture

/-!
**Drill holes.**

Every clear polygon is read as a round hole: its centre is the middle of the box around it, and its
diameter is the mean of the sides of the box.

Main definitions:

* `Drill`, `Polygon.drill?` — **the hole of a polygon**;
* `Layout.drills` — the holes of a layout.
-/

set_option relaxedAutoImplicit false
set_option autoImplicit false

namespace Artwork

/-- A round hole. -/
structure Drill (K : Type) where
  center : Point K
  diameter : K
  deriving Repr, DecidableEq

/-- The hole of a box: its centre is the middle of the box, and its diameter the mean of the width and
the height. -/
def Box.drill {K : Type} [Scalar K] (b : Box K) : Drill K :=
  ⟨b.center, (b.width + b.height) / ((2 : Nat) : K)⟩

/-- The **hole of a polygon**, if the polygon has a point. -/
def Polygon.drill? {K : Type} [Scalar K] (p : Polygon K) : Option (Drill K) :=
  p.box?.map Box.drill

/-- The holes of the clear polygons of layer 0, aperture by aperture. -/
def Layout.drills (layout : Layout) : List (Drill Float) :=
  match layout.get? clearLayer with
  | none => []
  | some layer =>
    ((layer.values.flatMap (·.geometry)).filter Entry.isClear).filterMap (·.polygon.drill?)

end Artwork
