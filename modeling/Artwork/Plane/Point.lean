import Artwork.Scalar

/-!
**Points of the plane.**

Coordinates are in the unit of the output, with `y` growing upwards.

Main definitions:

* `Point` — a pair of coordinates, with sum, difference and multiples;
* `Point.distance` — the Euclidean distance;
* `Point.near` — closeness in both coordinates, the test by which two vertices count as one.
-/

set_option relaxedAutoImplicit false
set_option autoImplicit false

namespace Artwork

/-- A point of the plane. -/
structure Point (K : Type) where
  x : K
  y : K
  deriving Repr, BEq, DecidableEq

namespace Point

variable {K : Type} [Scalar K]

instance : Add (Point K) where
  add p q := ⟨p.x + q.x, p.y + q.y⟩

instance : Sub (Point K) where
  sub p q := ⟨p.x - q.x, p.y - q.y⟩

/-- The point with both coordinates of `p` multiplied by `k`. -/
instance : HMul (Point K) K (Point K) where
  hMul p k := ⟨p.x * k, p.y * k⟩

@[simp] theorem add_x (p q : Point K) : (p + q).x = p.x + q.x := rfl

@[simp] theorem add_y (p q : Point K) : (p + q).y = p.y + q.y := rfl

@[simp] theorem sub_x (p q : Point K) : (p - q).x = p.x - q.x := rfl

@[simp] theorem sub_y (p q : Point K) : (p - q).y = p.y - q.y := rfl

@[simp] theorem mul_x (p : Point K) (k : K) : (p * k).x = p.x * k := rfl

@[simp] theorem mul_y (p : Point K) (k : K) : (p * k).y = p.y * k := rfl

/-- The length of the vector from the origin to `p`. -/
@[inline] def length [Trigonometric K] (p : Point K) : K :=
  Trigonometric.sqrt (p.x * p.x + p.y * p.y)

/-- The Euclidean distance of two points. -/
def distance [Trigonometric K] (p q : Point K) : K :=
  (p - q).length

/-- Two points are near within `eps` when neither coordinate differs by more than `eps`. -/
@[inline] def near (eps : K) (p q : Point K) : Bool :=
  Scalar.magnitude (p.x - q.x) ≤ eps && Scalar.magnitude (p.y - q.y) ≤ eps

end Point

end Artwork
