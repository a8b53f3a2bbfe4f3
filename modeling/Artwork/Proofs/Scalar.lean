import Mathlib.Algebra.Order.Field.Basic
import Artwork.Plane.Point

/-!
**Numbers without rounding.**

The rules of the geometry are written over any type of numbers with the operations of `Scalar`.
Doubles have them with rounding; a field with a linear order has them exactly, and its equality is
the equality of the numbers.

Main definitions:

* `exactScalar` — the operations of the geometry **in a field**.

Main results:

* `Scalar.lesser_eq_min`, `Scalar.greater_eq_max`, `Scalar.magnitude_eq_abs` — minimum, maximum and
  absolute value.
-/

set_option relaxedAutoImplicit false
set_option autoImplicit false

namespace Artwork

/-- The operations of the geometry **in a field**. -/
instance exactScalar {K : Type} [Field K] [LinearOrder K] : Scalar K where
  decideLT := inferInstance
  decideLE := inferInstance

namespace Scalar

variable {K : Type} [Field K] [LinearOrder K]

/-- In a field with a linear order the smaller of two numbers is **their minimum**. -/
theorem lesser_eq_min (x y : K) : lesser x y = min x y := by
  unfold lesser
  rw [beq_self_eq_true, if_pos rfl, min_def]
  split
  · next hlt => rw [if_pos hlt.le]
  · next hge =>
      split
      · next hle => exact le_antisymm (not_lt.1 hge) hle
      · rfl

theorem greater_eq_max (x y : K) : greater x y = max x y := by
  unfold greater
  rw [beq_self_eq_true, if_pos rfl, max_comm, max_def]
  split
  · next hlt => rw [if_pos hlt.le]
  · next hge =>
      split
      · next hle => exact le_antisymm hle (not_lt.1 hge)
      · rfl

theorem magnitude_eq_abs [IsStrictOrderedRing K] (x : K) : magnitude x = |x| := by
  unfold magnitude
  split
  · next hneg => rw [abs_of_neg hneg]
  · next hpos =>
      rw [abs_of_nonneg (not_lt.1 hpos)]
      split
      · next hzero => exact (eq_of_beq hzero).symm
      · rfl

end Scalar

namespace Point

variable {K : Type} [Field K] [LinearOrder K]

theorem beq_eq (p q : Point K) : (p == q) = (p.x == q.x && p.y == q.y) := rfl

/-- Points compare as equal exactly if they are equal. -/
instance exactLawfulBEq : LawfulBEq (Point K) where
  rfl {p} := by
    rw [beq_eq, beq_self_eq_true, beq_self_eq_true]
    rfl
  eq_of_beq {p q} h := by
    rw [beq_eq, Bool.and_eq_true, beq_iff_eq, beq_iff_eq] at h
    obtain ⟨px, py⟩ := p
    obtain ⟨qx, qy⟩ := q
    rw [Point.mk.injEq]
    exact h

end Point

end Artwork
