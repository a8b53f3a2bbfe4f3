import Artwork.Plane.Point

/-!
**Cubic curves and the polylines that stand for them.**

A curve segment is sampled at equally spaced parameters of `[0, 1)`.  The end point is left out, so
that the samples of connected segments can be joined without repeating the point they share; the
polyline of a whole chain ends at the stop point of its last segment.

Main definitions:

* `Segment` — a cubic curve by its four control points;
* `Segment.eval` — the point at a parameter;
* `Segment.samples`, `Segment.polyline` — the samples of one segment and of a chain.
-/

set_option relaxedAutoImplicit false
set_option autoImplicit false

namespace Artwork

/-- A cubic curve from `start` to `stop`, drawn towards `control₁` at first and away from
`control₂` at last. -/
structure Segment (K : Type) where
  start : Point K
  control₁ : Point K
  control₂ : Point K
  stop : Point K
  deriving Repr, BEq, DecidableEq

namespace Segment

variable {K : Type} [Scalar K]

/-- The point of the curve at parameter `t`: its control points with the cubic Bernstein
weights. -/
def eval (s : Segment K) (t : K) : Point K :=
  let u : K := 1 - t
  let three : K := (3 : Nat)
  s.start * (u * u * u) + s.control₁ * (three * t * u * u)
    + s.control₂ * (three * u * t * t) + s.stop * (t * t * t)

/-- The points at the parameters `0`, `1 / steps`, …, `(steps - 1) / steps`. -/
def samples (steps : Nat) (s : Segment K) : List (Point K) :=
  (List.range steps).map fun (i : Nat) => s.eval ((i : K) / (steps : K))

/-- The polyline of a chain of segments: the samples of each, then the last stop point. -/
def polyline (steps : Nat) (chain : List (Segment K)) : List (Point K) :=
  chain.flatMap (samples steps) ++ chain.getLast?.toList.map stop

theorem length_samples (steps : Nat) (s : Segment K) : (samples steps s).length = steps := by
  simp [samples]

end Segment

end Artwork
