import Artwork.Plane.Point
import Artwork.Proofs.Decimal.Value

/-!
**How far doubles are apart.**

A difference of doubles is rounded, and it may be infinite.  Still the difference the other way round
is the same but for its sign, and a finite double is at no distance from itself.  So closeness of
points is symmetric, whatever their coordinates are, and a point with finite coordinates is near
itself.

Main definitions:

* `absDifference` — the **distance of two doubles**, as it is compared;
* `Point.IsFinite` — a point with finite coordinates.

Main results:

* `absDifference_comm`, `absDifference_self` — the laws of the distance;
* `Point.near_comm`, `Point.near_self` — **closeness of points**.
-/

set_option relaxedAutoImplicit false
set_option autoImplicit false

namespace Artwork

open Float.Model (Format UnpackedFloat)
open Float.Model.UnpackedFloat

/-! ### Changing the sign -/

theorem roundWithAccuracy_neg (s : Sign) (m : Nat) (e : Int) (a : Accuracy) :
    roundWithAccuracy .binary64 (-s) m e a = (roundWithAccuracy .binary64 s m e a).neg := by
  unfold roundWithAccuracy
  dsimp only
  split <;> rfl

/-- A number other than zero and its opposite are rounded to opposite doubles. -/
theorem normalize_neg {m : Int} (hm : m ≠ 0) (e : Int) :
    UnpackedFloat.normalize .binary64 (-m) e .positive =
      (UnpackedFloat.normalize .binary64 m e .positive).neg := by
  unfold UnpackedFloat.normalize
  rcases Int.lt_or_gt_of_ne hm with hneg | hpos
  · rw [Int.compare_eq_lt.2 hneg, Int.compare_eq_gt.2 (by omega)]
    exact roundWithAccuracy_neg .negative ..
  · rw [Int.compare_eq_gt.2 hpos, Int.compare_eq_lt.2 (by omega), Int.neg_neg]
    exact roundWithAccuracy_neg .positive ..

/-- A difference taken the other way round has the other sign, unless it is zero. -/
theorem sub_swap (u v : UnpackedFloat) :
    sub .binary64 v u = (sub .binary64 u v).neg ∨
      sub .binary64 u v = .zero .positive ∧ sub .binary64 v u = .zero .positive := by
  cases u with
  | notANumber => cases v <;> exact Or.inl rfl
  | infinity s =>
      cases v with
      | infinity t => cases s <;> cases t <;> exact Or.inl rfl
      | _ => exact Or.inl rfl
  | zero s =>
      cases v with
      | zero t => cases s <;> cases t <;> first | exact Or.inl rfl | exact Or.inr ⟨rfl, rfl⟩
      | infinity t => cases t <;> exact Or.inl rfl
      | notANumber => exact Or.inl rfl
      | finite t n f hn => cases t <;> exact Or.inl rfl
  | finite s m e hm =>
      cases v with
      | infinity t => cases t <;> exact Or.inl rfl
      | zero t => exact Or.inl rfl
      | notANumber => exact Or.inl rfl
      | finite t n f hn =>
          unfold Float.Model.UnpackedFloat.sub
          dsimp only
          rw [min_comm f e]
          generalize s.apply (decreaseExponent m e (min e f)).1 = a
          generalize t.apply (decreaseExponent n f (min e f)).1 = b
          by_cases hab : a = b
          · rw [hab, Int.sub_self]
            exact Or.inr ⟨rfl, rfl⟩
          · rw [← Int.neg_sub a b, normalize_neg (by omega)]
            exact Or.inl rfl

theorem ofFields_neg (s : Sign) (e : BitVec 11) (m : BitVec 52) :
    ofFields (-s) e m = (ofFields s e m).neg := by
  unfold ofFields
  split_ifs <;> rfl

/-- Packing a number into bits and reading these commutes with changing the sign. -/
theorem unpack_pack_neg (u : UnpackedFloat) :
    (Float.Model.pack u.neg).unpack = (Float.Model.pack u).unpack.neg := by
  have hfields (s : Sign) (e : BitVec 11) (m : BitVec 52) :
      unpack .binary64 (packComponents .binary64 (-s) e m) =
        (unpack .binary64 (packComponents .binary64 s e m)).neg := by
    rw [unpack_packComponents, unpack_packComponents, ofFields_neg]
  change unpack .binary64 (pack .binary64 u.neg) = (unpack .binary64 (pack .binary64 u)).neg
  cases u with
  | notANumber => rfl
  | infinity s => exact hfields ..
  | zero s => exact hfields ..
  | finite s m e hm =>
      unfold Float.Model.UnpackedFloat.neg Float.Model.UnpackedFloat.pack
      dsimp only
      split_ifs <;> exact hfields ..

/-! ### Distances -/

/-- The **distance of two doubles**, as it is compared: their difference without its sign. -/
def absDifference (x y : Float) : UnpackedFloat :=
  (x - y).toModel.unpack.abs

theorem float_lt_iff (x y : Float) :
    x < y ↔ x.toModel.unpack.lt y.toModel.unpack = true := by
  change decide (x.toModel < y.toModel) = true ↔ _
  exact decide_eq_true_iff

/-- The absolute value is the number without its sign. -/
theorem unpack_magnitude (x : Float) :
    (Scalar.magnitude x).toModel.unpack = x.toModel.unpack.abs := by
  have hlt : x < 0 ↔ x.toModel.unpack.lt (.zero .positive) = true := float_lt_iff x 0
  have hbeq : (x == 0) = x.toModel.unpack.beq (.zero .positive) := rfl
  have hmagnitude : Scalar.magnitude x =
      if x.toModel.unpack.lt (.zero .positive) then -x
      else if x.toModel.unpack.beq (.zero .positive) then 0 else x := by
    rw [← hbeq]
    exact ite_congr (propext hlt) (fun _ => rfl) fun _ => rfl
  have hneg : (-x).toModel.unpack = (Float.Model.pack x.toModel.unpack.neg).unpack := rfl
  rw [hmagnitude]
  match hu : x.toModel.unpack with
  | .notANumber => exact hu
  | .infinity .positive => exact hu
  | .infinity .negative =>
      rw [hu] at hneg
      exact hneg
  | .zero s =>
      rw [if_neg (by cases s <;> nofun), if_pos (by cases s <;> rfl)]
      rfl
  | .finite .positive m e hm => exact hu
  | .finite .negative m e hm =>
      rw [hu] at hneg
      have hfinite := isDouble_toModel (x := x) (congrArg UnpackedFloat.isFinite hu)
      rw [hu] at hfinite
      exact hneg.trans (unpack_pack (u := .finite .positive m e hm) hfinite)

theorem absDifference_comm (x y : Float) : absDifference x y = absDifference y x := by
  have habs (u : UnpackedFloat) : u.neg.abs = u.abs := by cases u <;> rfl
  unfold absDifference
  change (Float.Model.pack (sub .binary64 x.toModel.unpack y.toModel.unpack)).unpack.abs =
    (Float.Model.pack (sub .binary64 y.toModel.unpack x.toModel.unpack)).unpack.abs
  rcases sub_swap x.toModel.unpack y.toModel.unpack with hneg | ⟨hzero, hzero'⟩
  · rw [hneg, unpack_pack_neg, habs]
  · rw [hzero, hzero']

/-- A finite double is at **no distance from itself**. -/
theorem absDifference_self {x : Float} (hx : x.isFinite = true) :
    absDifference x x = .zero .positive := by
  have hfinite : x.toModel.unpack.isFinite = true := hx
  unfold absDifference
  change (Float.Model.pack (sub .binary64 x.toModel.unpack x.toModel.unpack)).unpack.abs = _
  generalize x.toModel.unpack = u at hfinite ⊢
  cases u with
  | notANumber => cases hfinite
  | infinity s => cases hfinite
  | zero s => cases s <;> rfl
  | finite s m e hm =>
      have hsub : sub .binary64 (.finite s m e hm) (.finite s m e hm) = .zero .positive := by
        unfold Float.Model.UnpackedFloat.sub
        dsimp only
        rw [Int.sub_self]
        rfl
      rw [hsub]
      rfl

/-! ### Closeness of points -/

namespace Point

/-- A point with finite coordinates. -/
structure IsFinite (p : Point Float) : Prop where
  x : p.x.isFinite = true
  y : p.y.isFinite = true

theorem near_eq (eps : Float) (p q : Point Float) :
    p.near eps q =
      ((absDifference p.x q.x).le eps.toModel.unpack &&
        (absDifference p.y q.y).le eps.toModel.unpack) := by
  have hle (x : Float) :
      decide (Scalar.magnitude x ≤ eps) = x.toModel.unpack.abs.le eps.toModel.unpack := by
    rw [← unpack_magnitude, Bool.eq_iff_iff, decide_eq_true_iff]
    exact float_le_iff ..
  unfold near
  rw [hle, hle]
  rfl

/-- Closeness is **symmetric**. -/
theorem near_comm (eps : Float) (p q : Point Float) : p.near eps q = q.near eps p := by
  rw [near_eq, near_eq, absDifference_comm p.x, absDifference_comm p.y]

/-- A point with finite coordinates **is near itself**. -/
theorem near_self {eps : Float} (heps : 0 ≤ eps) {p : Point Float} (hp : p.IsFinite) :
    p.near eps p = true := by
  rw [near_eq, absDifference_self hp.x, absDifference_self hp.y, Bool.and_self]
  exact (float_le_iff 0 eps).1 heps

end Point

end Artwork
