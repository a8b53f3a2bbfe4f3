import Mathlib.Algebra.BigOperators.Group.List.Basic
import Mathlib.Data.List.Rotate
import Mathlib.Data.List.Zip
import Mathlib.Tactic.Ring
import Artwork.Proofs.Scalar
import Artwork.Plane.Ring

/-!
**Neighbours on the way round, and the area inside.**

The way round an outline is the same from wherever it starts, and backwards it is the same with every
step turned round.  The area is a sum over the steps, and each term changes its sign when its step is
turned round: the area does not depend on the start, and changes its sign with the direction.

Main definitions:

* `cross` — what a step contributes to **twice the area**.

Main results:

* `cyclicPairs_rotate`, `cyclicPairs_reverse` — the way round from another start, and backwards;
* `zip_tail_reverse` — a way that does not return, backwards;
* `signedArea_eq_sum` — the area as a sum, which is zero for fewer than three points;
* `signedArea_rotate`, `signedArea_reverse` — the area from another start, and **its sign**;
* `signedArea_counterClockwise_nonneg` — an outline that is turned where necessary is not clockwise.
-/

set_option relaxedAutoImplicit false
set_option autoImplicit false

namespace Artwork

/-! ### Neighbours -/

section Neighbours

variable {α : Type}

theorem cyclicPairs_eq_zip (as : List α) : cyclicPairs as = as.zip (as.rotate 1) := by
  cases as with
  | nil => rfl
  | cons a as => rw [List.rotate_cons_succ, List.rotate_zero, cyclicPairs]

/-- The steps from every member to the next one are the same without the last member, which begins
none. -/
theorem zip_tail_eq_dropLast_zip (as : List α) : as.zip as.tail = as.dropLast.zip as.tail := by
  have hmin : min as.length as.tail.length = as.length - 1 := by
    rw [List.length_tail]
    omega
  rw [List.zip_eq_zip_take_min, hmin, ← List.dropLast_eq_take, ← List.length_tail, List.take_length]

/-- The way round is the way to the last member, and the step back to the first. -/
theorem cyclicPairs_eq_append {as : List α} {first last : α} (hfirst : as.head? = some first)
    (hlast : as.getLast? = some last) : cyclicPairs as = as.zip as.tail ++ [(last, first)] := by
  have hhead : first :: as.tail = as := List.cons_head?_tail hfirst
  have hback : as.dropLast ++ [last] = as := List.dropLast_append_getLast? last hlast
  have hlength : as.dropLast.length = as.tail.length := by
    rw [List.length_dropLast, List.length_tail]
  have hrotate : as.rotate 1 = as.tail ++ [first] := by
    rw [← hhead, List.rotate_cons_succ, List.rotate_zero, List.tail_cons]
  rw [cyclicPairs_eq_zip, hrotate, zip_tail_eq_dropLast_zip]
  calc
    as.zip (as.tail ++ [first]) = (as.dropLast ++ [last]).zip (as.tail ++ [first]) := by rw [hback]
    _ = as.dropLast.zip as.tail ++ [(last, first)] := List.zip_append hlength

/-- From another start it is **the same way round**. -/
theorem cyclicPairs_rotate (as : List α) (n : Nat) :
    cyclicPairs (as.rotate n) = (cyclicPairs as).rotate n := by
  rw [cyclicPairs_eq_zip, cyclicPairs_eq_zip, List.rotate_rotate, Nat.add_comm,
    ← List.rotate_rotate]
  exact (List.zipWith_rotate_distrib Prod.mk as (as.rotate 1) n (List.length_rotate ..).symm).symm

theorem rotate_reverse_rotate (as : List α) : (as.rotate 1).reverse.rotate 1 = as.reverse := by
  cases as with
  | nil => rfl
  | cons a as =>
      rw [List.rotate_cons_succ, List.rotate_zero, List.reverse_append, List.reverse_singleton,
        List.singleton_append, List.rotate_cons_succ, List.rotate_zero, List.reverse_cons]

/-- Backwards it is the way round **with every step turned round**. -/
theorem cyclicPairs_reverse (as : List α) :
    cyclicPairs as.reverse = ((cyclicPairs as).map Prod.swap).reverse.rotate 1 := by
  have hlength : (as.rotate 1).length = as.length := List.length_rotate ..
  calc
    cyclicPairs as.reverse = as.reverse.zip (as.reverse.rotate 1) := cyclicPairs_eq_zip _
    _ = ((as.rotate 1).reverse.rotate 1).zip (as.reverse.rotate 1) := by rw [rotate_reverse_rotate]
    _ = ((as.rotate 1).reverse.zip as.reverse).rotate 1 :=
      (List.zipWith_rotate_distrib Prod.mk _ _ 1 (by simp)).symm
    _ = ((as.rotate 1).zip as).reverse.rotate 1 :=
      congrArg (List.rotate · 1) (List.reverse_zipWith hlength).symm
    _ = ((cyclicPairs as).map Prod.swap).reverse.rotate 1 := by
      rw [cyclicPairs_eq_zip, List.zip_swap]

/-- A way that does not return, **backwards**. -/
theorem zip_tail_reverse (as : List α) :
    as.reverse.zip as.reverse.tail = ((as.zip as.tail).map Prod.swap).reverse := by
  have hlength : as.tail.length = as.dropLast.length := by
    rw [List.length_dropLast, List.length_tail]
  calc
    as.reverse.zip as.reverse.tail = as.reverse.dropLast.zip as.reverse.tail :=
      zip_tail_eq_dropLast_zip _
    _ = as.tail.reverse.zip as.dropLast.reverse := by rw [List.dropLast_reverse, List.tail_reverse]
    _ = (as.tail.zip as.dropLast).reverse := (List.reverse_zipWith hlength).symm
    _ = ((as.zip as.tail).map Prod.swap).reverse := by
      rw [zip_tail_eq_dropLast_zip, List.zip_swap]

end Neighbours

/-! ### Areas -/

variable {K : Type} [Field K]

/-- What a step contributes to **twice the area**. -/
def cross (step : Point K × Point K) : K :=
  step.1.x * step.2.y - step.2.x * step.1.y

theorem cross_swap (step : Point K × Point K) : cross step.swap = -cross step := by
  unfold cross
  rw [Prod.fst_swap, Prod.snd_swap, neg_sub]

theorem cross_self (p : Point K) : cross (p, p) = 0 :=
  sub_self _

/-- With fewer than three points, the contributions of the steps add up to zero. -/
theorem sum_cross_of_length_lt {ps : List (Point K)} (h : ps.length < 3) :
    ((cyclicPairs ps).map cross).sum = 0 := by
  match ps, h with
  | [], _ => rfl
  | [p], _ => simp [cyclicPairs, cross_self]
  | [p, q], _ =>
      have hback : cross (q, p) = -cross (p, q) := cross_swap (p, q)
      simp [cyclicPairs, hback]

variable [LinearOrder K]

/-- The area is a **sum over the way round**, however few points there are. -/
theorem signedArea_eq_sum (ps : List (Point K)) :
    signedArea ps = ((cyclicPairs ps).map cross).sum / (2 : Nat) := by
  unfold signedArea
  split
  · next h => rw [sum_cross_of_length_lt h, zero_div]
  · rw [List.sum_eq_foldl, List.foldl_map]
    rfl

/-- The area is the same from **another start**. -/
theorem signedArea_rotate (ps : List (Point K)) (n : Nat) :
    signedArea (ps.rotate n) = signedArea ps := by
  have hperm : ((cyclicPairs ps).rotate n).Perm (cyclicPairs ps) := List.rotate_perm ..
  rw [signedArea_eq_sum, signedArea_eq_sum, cyclicPairs_rotate, (hperm.map cross).sum_eq]

/-- The area **changes its sign** with the direction. -/
theorem signedArea_reverse (ps : List (Point K)) : signedArea ps.reverse = -signedArea ps := by
  have hperm : (cyclicPairs ps.reverse).Perm ((cyclicPairs ps).map Prod.swap) := by
    rw [cyclicPairs_reverse]
    exact (List.rotate_perm ..).trans (List.reverse_perm _)
  have hneg : ((cyclicPairs ps).map Prod.swap).map cross =
      ((cyclicPairs ps).map cross).map fun x => -x := by
    rw [List.map_map, List.map_map]
    exact List.map_congr_left fun step _ => cross_swap step
  rw [signedArea_eq_sum, signedArea_eq_sum, (hperm.map cross).sum_eq, hneg, ← List.sum_neg, neg_div]

/-- The area of a parallelogram by one side and half of the other. -/
theorem signedArea_parallelogram [CharZero K] (p q n : Point K) :
    signedArea [p - n, q - n, q + n, p + n] =
      2 * ((q - p).x * n.y - (q - p).y * n.x) := by
  have htwo : ((2 : Nat) : K) ≠ 0 := Nat.cast_ne_zero.2 (by decide)
  rw [signedArea_eq_sum, div_eq_iff htwo]
  simp only [cyclicPairs, List.cons_append, List.nil_append, List.zip_cons_cons,
    List.zip_nil_right, List.map_cons, List.map_nil, List.sum_cons, List.sum_nil, cross,
    Point.add_x, Point.add_y, Point.sub_x, Point.sub_y, Nat.cast_ofNat]
  ring

/-- An outline that is turned where necessary has the same points, each as often. -/
theorem counterClockwise_perm (ps : List (Point K)) : (counterClockwise ps).Perm ps := by
  unfold counterClockwise
  split
  · exact List.reverse_perm ps
  · exact List.Perm.refl ps

/-- The reverse of an outline with a positive area is turned back. -/
theorem counterClockwise_reverse [IsStrictOrderedRing K] {ps : List (Point K)}
    (h : 0 < signedArea ps) : counterClockwise ps.reverse = ps := by
  unfold counterClockwise
  rw [signedArea_reverse, if_pos (neg_neg_of_pos h), List.reverse_reverse]

/-- An outline that is turned where necessary **is not clockwise**. -/
theorem signedArea_counterClockwise_nonneg [IsStrictOrderedRing K] (ps : List (Point K)) :
    0 ≤ signedArea (counterClockwise ps) := by
  unfold counterClockwise
  split
  · next hclockwise =>
      rw [signedArea_reverse]
      exact neg_nonneg.2 hclockwise.le
  · next hcounter => exact not_lt.1 hcounter

end Artwork
