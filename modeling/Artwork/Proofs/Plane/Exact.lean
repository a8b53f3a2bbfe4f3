import Mathlib
import Artwork.Proofs.Decimal.Distance
import Artwork.Proofs.Plane.Box
import Artwork.Plane.Ring

/-!
**The box around points with doubles for coordinates.**

Doubles are rounded where they are added or multiplied, and not where they are compared.  Of two finite
doubles the smaller one is the double of the smaller number, and so the box around points with finite
coordinates is, without rounding, the box around the points without rounding.

Main definitions:

* `Point.exact`, `Box.exact`, `Polygon.exact` — points, boxes and polygons **without rounding**.

Main results:

* `unpacked_compare_swap` — comparing doubles the other way round;
* `floatValue_lesser`, `floatValue_greater` — the smaller and the greater of two doubles;
* `Box.ofPoints?_map_exact`, `Polygon.box?_exact` — **the box is exact**.
-/

set_option relaxedAutoImplicit false
set_option autoImplicit false

namespace Artwork

open Float.Model (UnpackedFloat)
open Float.Model.UnpackedFloat

/-! ### Comparisons -/

/-- Doubles compare **the other way round** in the other order. -/
theorem unpacked_compare_swap (u v : UnpackedFloat) :
    (u.compare v).map Ordering.swap = v.compare u := by
  cases u with
  | notANumber => cases v <;> rfl
  | infinity s =>
      cases v with
      | notANumber => cases s <;> rfl
      | infinity t => cases s <;> cases t <;> rfl
      | zero t => cases s <;> rfl
      | finite t n f hn => cases s <;> rfl
  | zero s =>
      cases v with
      | notANumber => rfl
      | infinity t => cases t <;> rfl
      | zero t => rfl
      | finite t n f hn => cases t <;> rfl
  | finite s m e hm =>
      cases v with
      | notANumber => cases s <;> rfl
      | infinity t => cases s <;> cases t <;> rfl
      | zero t => cases s <;> rfl
      | finite t n f hn =>
          have hswap : ((compare e f).then (compare m n)).swap = (compare f e).then (compare n m) := by
            rw [Ordering.swap_then, Int.compare_swap, Nat.compare_swap]
          cases s <;> cases t
          · exact congrArg (fun order => some order.swap) hswap
          · rfl
          · rfl
          · exact congrArg some hswap

/-- A finite double that is not less than another one is at least as great. -/
theorem unpacked_le_of_lt_eq_false {u v : UnpackedFloat} (hu : u.isFinite = true)
    (hv : v.isFinite = true) (h : u.lt v = false) : v.le u = true := by
  have hcompare : (u.compare v).isSome := by
    cases u with
    | notANumber => cases hu
    | infinity s => cases hu
    | zero s =>
        cases v with
        | notANumber => cases hv
        | infinity t => cases hv
        | zero t => rfl
        | finite t n f hn => cases t <;> rfl
    | finite s m e hm =>
        cases v with
        | notANumber => cases hv
        | infinity t => cases hv
        | zero t => cases s <;> rfl
        | finite t n f hn => cases s <;> cases t <;> rfl
  obtain ⟨order, horder⟩ := Option.isSome_iff_exists.1 hcompare
  have hswap := unpacked_compare_swap u v
  rw [horder, Option.map_some] at hswap
  unfold Float.Model.UnpackedFloat.lt at h
  unfold Float.Model.UnpackedFloat.le
  rw [horder] at h
  rw [← hswap]
  cases order with
  | lt => cases h
  | eq => rfl
  | gt => rfl

theorem unpacked_le_of_lt {u v : UnpackedFloat} (h : u.lt v = true) : u.le v = true := by
  unfold Float.Model.UnpackedFloat.lt at h
  unfold Float.Model.UnpackedFloat.le
  rw [eq_of_beq h]
  rfl

section Doubles

variable {x y : Float} (hx : x.isFinite = true) (hy : y.isFinite = true)
include hx hy

theorem floatValue_le_of_lt (h : x < y) : floatValue x ≤ floatValue y :=
  unpackedValue_le_of_le (isDouble_toModel hx) (isDouble_toModel hy)
    (unpacked_le_of_lt ((float_lt_iff x y).1 h))

theorem floatValue_le_of_not_lt (h : ¬x < y) : floatValue y ≤ floatValue x := by
  rw [float_lt_iff, Bool.not_eq_true] at h
  exact unpackedValue_le_of_le (isDouble_toModel hy) (isDouble_toModel hx)
    (unpacked_le_of_lt_eq_false hx hy h)

/-- The **smaller of two finite doubles** is finite, and stands for the smaller of their numbers. -/
theorem floatValue_lesser : (Scalar.lesser x y).isFinite = true ∧
    floatValue (Scalar.lesser x y) = Scalar.lesser (floatValue x) (floatValue y) := by
  have hself : (y == y) = true := (beq_iff_floatValue_eq hy hy).2 rfl
  rw [Scalar.lesser_eq_min]
  unfold Scalar.lesser
  rw [hself, if_pos rfl]
  split
  · next hlt => exact ⟨hx, (min_eq_left (floatValue_le_of_lt hx hy hlt)).symm⟩
  · next hge => exact ⟨hy, (min_eq_right (floatValue_le_of_not_lt hx hy hge)).symm⟩

/-- The **greater of two finite doubles** is finite, and stands for the greater of their numbers. -/
theorem floatValue_greater : (Scalar.greater x y).isFinite = true ∧
    floatValue (Scalar.greater x y) = Scalar.greater (floatValue x) (floatValue y) := by
  have hself : (y == y) = true := (beq_iff_floatValue_eq hy hy).2 rfl
  rw [Scalar.greater_eq_max]
  unfold Scalar.greater
  rw [hself, if_pos rfl]
  split
  · next hlt => exact ⟨hx, (max_eq_left (floatValue_le_of_lt hy hx hlt)).symm⟩
  · next hge => exact ⟨hy, (max_eq_right (floatValue_le_of_not_lt hy hx hge)).symm⟩

end Doubles

/-! ### Boxes -/

/-- The point **without rounding**. -/
def Point.exact (p : Point Float) : Point ℚ :=
  ⟨floatValue p.x, floatValue p.y⟩

namespace Box

/-- The box **without rounding**. -/
def exact (b : Box Float) : Box ℚ :=
  ⟨floatValue b.x0, floatValue b.y0, floatValue b.x1, floatValue b.y1⟩

/-- A box with finite edges. -/
structure IsFinite (b : Box Float) : Prop where
  x0 : b.x0.isFinite = true
  y0 : b.y0.isFinite = true
  x1 : b.x1.isFinite = true
  y1 : b.y1.isFinite = true

/-- A finite box grown by a finite point is finite, and nothing is rounded. -/
theorem exact_extend {b : Box Float} {p : Point Float} (hb : b.IsFinite) (hp : p.IsFinite) :
    (b.extend p).IsFinite ∧ (b.extend p).exact = b.exact.extend p.exact := by
  obtain ⟨hx0, hx0'⟩ := floatValue_lesser hb.x0 hp.x
  obtain ⟨hy0, hy0'⟩ := floatValue_lesser hb.y0 hp.y
  obtain ⟨hx1, hx1'⟩ := floatValue_greater hb.x1 hp.x
  obtain ⟨hy1, hy1'⟩ := floatValue_greater hb.y1 hp.y
  refine ⟨⟨hx0, hy0, hx1, hy1⟩, ?_⟩
  unfold exact extend
  rw [hx0', hy0', hx1', hy1']
  rfl

theorem exact_foldl_extend {ps : List (Point Float)} (hps : ∀ p ∈ ps, p.IsFinite) {b : Box Float}
    (hb : b.IsFinite) :
    (ps.foldl extend b).IsFinite ∧
      (ps.foldl extend b).exact = (ps.map Point.exact).foldl extend b.exact := by
  induction ps generalizing b with
  | nil => exact ⟨hb, rfl⟩
  | cons p ps ih =>
      obtain ⟨hp, hrest⟩ := List.forall_mem_cons.1 hps
      obtain ⟨hfinite, hexact⟩ := exact_extend hb hp
      rw [List.foldl_cons, List.map_cons, List.foldl_cons, ← hexact]
      exact ih hrest hfinite

/-- **The box is exact**: without rounding it is the box around the points without rounding. -/
theorem ofPoints?_map_exact {ps : List (Point Float)} (hps : ∀ p ∈ ps, p.IsFinite) :
    ofPoints? (ps.map Point.exact) = (ofPoints? ps).map exact := by
  cases ps with
  | nil => rfl
  | cons p ps =>
      obtain ⟨hp, hrest⟩ := List.forall_mem_cons.1 hps
      obtain ⟨-, hexact⟩ := exact_foldl_extend hrest (b := ofPoint p) ⟨hp.x, hp.y, hp.x, hp.y⟩
      exact congrArg some hexact.symm

end Box

/-! ### Polygons -/

/-- Points with finite coordinates are equal exactly if they are without rounding. -/
theorem Point.beq_exact {p q : Point Float} (hp : p.IsFinite) (hq : q.IsFinite) :
    (p.exact == q.exact) = (p == q) := by
  have heq : (p == q) = (p.x == q.x && p.y == q.y) := rfl
  rw [heq, Point.beq_eq, Bool.eq_iff_iff, Bool.and_eq_true, Bool.and_eq_true, beq_iff_eq,
    beq_iff_eq, beq_iff_floatValue_eq hp.x hq.x, beq_iff_floatValue_eq hp.y hq.y]
  rfl

/-- A contour of finite points may be led back to its start before or after the rounding is left out. -/
theorem Ring.closed_map_exact {contour : List (Point Float)} (h : ∀ p ∈ contour, p.IsFinite) :
    Ring.closed (contour.map Point.exact) = ⟨(Ring.closed contour).points.map Point.exact⟩ := by
  unfold closed
  rw [List.head?_map, List.getLast?_map]
  cases hfirst : contour.head? with
  | none => rfl
  | some first =>
      cases hlast : contour.getLast? with
      | none => rfl
      | some last =>
          have hbeq := Point.beq_exact (h first (List.mem_of_head? hfirst))
            (h last (List.mem_of_getLast? hlast))
          rw [Option.map_some, Option.map_some]
          dsimp only
          rw [bne, bne, hbeq]
          split
          · rw [List.map_append]
            rfl
          · rfl

/-- The polygon **without rounding**. -/
def Polygon.exact (p : Polygon Float) : Polygon ℚ :=
  ⟨⟨p.exterior.points.map Point.exact⟩, p.holes.map fun r => ⟨r.points.map Point.exact⟩⟩

theorem Polygon.box?_exact {p : Polygon Float} (h : ∀ v ∈ p.exterior.points, v.IsFinite) :
    p.exact.box? = p.box?.map Box.exact :=
  Box.ofPoints?_map_exact h

end Artwork
