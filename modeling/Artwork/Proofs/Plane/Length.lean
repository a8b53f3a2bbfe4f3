import Mathlib.Analysis.Real.Sqrt
import Mathlib.Analysis.SpecialFunctions.Trigonometric.Basic
import Mathlib.Tactic.Ring
import Artwork.Proofs.Scalar

/-!
**Lengths without rounding.**

A length is a square root.  What is known of lengths in general is that they do not depend on the
direction; that they are lengths indeed takes a square root without rounding, as the reals have it.

Main definitions:

* `ExactRoot` — a square root **without rounding**;
* `realTrigonometric` — the one of the reals.

Main results:

* `Point.length_mul_length` — the square of a length;
* `Point.abs_le_length` — no coordinate of a vector is greater than its length;
* `Point.distance_comm` — distances **in both directions**.
-/

set_option relaxedAutoImplicit false
set_option autoImplicit false

namespace Artwork

variable {K : Type} [Field K] [LinearOrder K] [Trigonometric K]

/-- A square root **without rounding**. -/
structure ExactRoot (K : Type) [Field K] [LinearOrder K] [Trigonometric K] : Prop where
  sqrt_nonneg : ∀ x : K, 0 ≤ x → 0 ≤ Trigonometric.sqrt x
  sqrt_mul_sqrt : ∀ x : K, 0 ≤ x → Trigonometric.sqrt x * Trigonometric.sqrt x = x

namespace Point

theorem length_sub_comm (p q : Point K) : (p - q).length = (q - p).length := by
  unfold length
  refine congrArg Trigonometric.sqrt ?_
  rw [sub_x, sub_y, sub_x, sub_y]
  ring

theorem distance_comm (p q : Point K) : p.distance q = q.distance p :=
  length_sub_comm p q

variable [IsStrictOrderedRing K] (hroot : ExactRoot K)
include hroot

theorem length_nonneg (d : Point K) : 0 ≤ d.length :=
  hroot.sqrt_nonneg _ (add_nonneg (mul_self_nonneg _) (mul_self_nonneg _))

theorem length_mul_length (d : Point K) : d.length * d.length = d.x * d.x + d.y * d.y :=
  hroot.sqrt_mul_sqrt _ (add_nonneg (mul_self_nonneg _) (mul_self_nonneg _))

/-- Neither coordinate of a vector **is greater**, without its sign, than its length. -/
theorem abs_le_length (d : Point K) : |d.x| ≤ d.length ∧ |d.y| ≤ d.length := by
  have hnonneg := length_nonneg hroot d
  constructor
  · refine abs_le_of_sq_le_sq ?_ hnonneg
    rw [sq, sq, length_mul_length hroot]
    exact le_add_of_nonneg_right (mul_self_nonneg d.y)
  · refine abs_le_of_sq_le_sq ?_ hnonneg
    rw [sq, sq, length_mul_length hroot]
    exact le_add_of_nonneg_left (mul_self_nonneg d.x)

end Point

/-! ### The reals -/

/-- The functions of a circle and the square root of the reals. -/
noncomputable instance realTrigonometric : Trigonometric ℝ where
  sqrt := Real.sqrt
  cos := Real.cos
  sin := Real.sin
  turn := 2 * Real.pi

theorem exactRoot_real : ExactRoot ℝ where
  sqrt_nonneg x _ := Real.sqrt_nonneg x
  sqrt_mul_sqrt _ hx := Real.mul_self_sqrt hx

theorem distance_eq_of_mul_self {p q : Point ℝ} {l : ℝ} (hl : 0 ≤ l)
    (h : (p - q).x * (p - q).x + (p - q).y * (p - q).y = l * l) : p.distance q = l := by
  unfold Point.distance Point.length
  rw [h]
  exact Real.sqrt_mul_self hl

end Artwork
