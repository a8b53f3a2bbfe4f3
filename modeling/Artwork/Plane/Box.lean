import Artwork.Plane.Point

/-!
**Axis-aligned boxes.**

Main definitions:

* `Box` — the box between a lower left and an upper right corner;
* `Box.ofPoints?` — the smallest box around a list of points;
* `Box.width`, `Box.height`, `Box.center` — its measures.
-/

set_option relaxedAutoImplicit false
set_option autoImplicit false

namespace Artwork

/-- The box of the points with `x0 ≤ x ≤ x1` and `y0 ≤ y ≤ y1`. -/
structure Box (K : Type) where
  /-- The left edge. -/
  x0 : K
  /-- The bottom edge. -/
  y0 : K
  /-- The right edge. -/
  x1 : K
  /-- The top edge. -/
  y1 : K
  deriving Repr

namespace Box

variable {K : Type} [Scalar K]

/-- The box that holds one point only. -/
def ofPoint (p : Point K) : Box K :=
  ⟨p.x, p.y, p.x, p.y⟩

/-- The smallest box around a box and a point. -/
def extend (b : Box K) (p : Point K) : Box K :=
  ⟨Scalar.lesser b.x0 p.x, Scalar.lesser b.y0 p.y,
    Scalar.greater b.x1 p.x, Scalar.greater b.y1 p.y⟩

/-- The smallest box around the points; there is none around no point. -/
def ofPoints? : List (Point K) → Option (Box K)
  | [] => none
  | p :: ps => some (ps.foldl extend (ofPoint p))

/-- The extent along `x`. -/
def width (b : Box K) : K :=
  b.x1 - b.x0

/-- The extent along `y`. -/
def height (b : Box K) : K :=
  b.y1 - b.y0

/-- The point in the middle. -/
def center (b : Box K) : Point K :=
  ⟨(b.x0 + b.x1) / (2 : Nat), (b.y0 + b.y1) / (2 : Nat)⟩

/-- There is a box around every list with a point in it. -/
theorem isSome_ofPoints?_iff (ps : List (Point K)) : (ofPoints? ps).isSome ↔ ps ≠ [] := by
  cases ps <;> simp [ofPoints?]

end Box

end Artwork
