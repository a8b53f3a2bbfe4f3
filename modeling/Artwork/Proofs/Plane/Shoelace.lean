import Mathlib.Algebra.BigOperators.Ring.List
import Mathlib.Algebra.Order.Ring.Rat
import Mathlib.Data.List.Forall2
import Mathlib.Data.Sym.Sym2
import Artwork.Proofs.Plane.Area

/-!
**The laws of the area.**

The area inside an outline is half of a sum over the steps of the way round.  What an outline gains on
this way by a function of its points, it loses again: so the sum does not change if all points are moved
by the same vector.  Leading the outline back to its start adds a step that stays where it is, and
contributes nothing.  An outline of fewer than three points goes there and back, which contributes
nothing either, so that its length needs no cases anywhere.

Main definitions:

* `AreaLaws` — what becomes of the area **when the outline is changed**;
* `Ring.Along`, `Ring.SameOutline` — rings along one outline, begun anywhere and run either way.

Main results:

* `cyclicPairs_map`, `cyclicPairs_append_first` — the way round of a mapped outline, and of one that is
  led back to its start;
* `sum_map_sub_cyclicPairs` — nothing is gained on the way round;
* `signedArea_translate`, `signedArea_scale`, `signedArea_closed` — the area of the changed outline;
* `Polygon.area_congr` — the area of a polygon **does not depend** on how its rings run;
* `area_laws` — all of it, for every outline and every polygon.
-/

set_option relaxedAutoImplicit false
set_option autoImplicit false

namespace Artwork

/-! ### The way round -/

section Neighbours

variable {α β : Type}

theorem cyclicPairs_map (f : α → β) (as : List α) :
    cyclicPairs (as.map f) = (cyclicPairs as).map (Prod.map f f) := by
  rw [cyclicPairs_eq_zip, cyclicPairs_eq_zip, ← List.map_rotate, List.zip_map]

/-- Led back to its first member, a list has one step more, which **stays where it is**. -/
theorem cyclicPairs_append_first {as : List α} {first : α} (hfirst : as.head? = some first) :
    cyclicPairs (as ++ [first]) = cyclicPairs as ++ [(first, first)] := by
  cases as with
  | nil => cases hfirst
  | cons a as =>
      rw [List.head?_cons, Option.some.injEq] at hfirst
      subst hfirst
      have hlength : (a :: as).length = (as ++ [a]).length := by simp
      exact List.zip_append hlength

/-- Every member begins one step, -/
theorem map_fst_cyclicPairs (as : List α) : (cyclicPairs as).map Prod.fst = as := by
  rw [cyclicPairs_eq_zip]
  exact List.map_fst_zip (by simp)

/-- and every member ends one. -/
theorem map_snd_cyclicPairs (as : List α) : (cyclicPairs as).map Prod.snd = as.rotate 1 := by
  rw [cyclicPairs_eq_zip]
  exact List.map_snd_zip (by simp)

/-- What a function gains over the steps **of the way round** adds up to zero. -/
theorem sum_map_sub_cyclicPairs {G : Type} [AddCommGroup G] (f : α → G) (as : List α) :
    ((cyclicPairs as).map fun step => f step.2 - f step.1).sum = 0 := by
  have hends : ((cyclicPairs as).map fun step => f step.2).sum = (as.map f).sum := by
    have hperm : ((as.rotate 1).map f).Perm (as.map f) := (List.rotate_perm as 1).map f
    rw [← hperm.sum_eq, ← map_snd_cyclicPairs, List.map_map]
    rfl
  have hbegins : ((cyclicPairs as).map fun step => -f step.1).sum = -(as.map f).sum := by
    conv_rhs => rw [← map_fst_cyclicPairs as]
    rw [List.sum_neg, List.map_map, List.map_map]
    rfl
  simp only [sub_eq_add_neg]
  rw [List.sum_map_add, hends, hbegins, add_neg_cancel]

/-- Backwards a list has the same pairs of neighbours, if their order is left out. -/
theorem neighbours_reverse_perm (as : List α) :
    ((cyclicPairs as.reverse).map fun step => s(step.1, step.2)).Perm
      ((cyclicPairs as).map fun step => s(step.1, step.2)) := by
  have hturned : ((cyclicPairs as).map Prod.swap).map (fun step => s(step.1, step.2)) =
      (cyclicPairs as).map fun step => s(step.1, step.2) := by
    rw [List.map_map]
    exact List.map_congr_left fun step _ => Sym2.eq_swap
  rw [cyclicPairs_reverse, ← hturned]
  exact ((List.rotate_perm ..).trans (List.reverse_perm _)).map _

end Neighbours

/-! ### Outlines -/

variable {K : Type} [Field K]

theorem cross_scale (sx sy : K) (p q : Point K) :
    cross (⟨sx * p.x, sy * p.y⟩, ⟨sx * q.x, sy * q.y⟩) = sx * sy * cross (p, q) := by
  unfold cross
  ring

variable [LinearOrder K]

/-- What a step contributes after a move is what it contributed before, and what the move gains on
it. -/
theorem cross_translate (v p q : Point K) :
    cross (p + v, q + v) = cross (p, q) + (cross (v, q) - cross (v, p)) := by
  unfold cross
  simp only [Point.add_x, Point.add_y]
  ring

/-- A step that stays where it is adds nothing. -/
theorem signedArea_append_first {ps : List (Point K)} {first : Point K}
    (hfirst : ps.head? = some first) : signedArea (ps ++ [first]) = signedArea ps := by
  rw [signedArea_eq_sum, signedArea_eq_sum, cyclicPairs_append_first hfirst, List.map_append,
    List.sum_append, List.map_singleton, cross_self, List.sum_singleton, add_zero]

/-- The ring has **the area of its outline**. -/
theorem signedArea_closed (ps : List (Point K)) : (Ring.closed ps).signedArea = signedArea ps := by
  unfold Ring.closed
  split
  · next first last hfirst _ =>
      split
      · exact signedArea_append_first hfirst
      · rfl
  · rfl

/-- **Moved** as a whole, an outline has the same area. -/
theorem signedArea_translate (v : Point K) (ps : List (Point K)) :
    signedArea (ps.map (· + v)) = signedArea ps := by
  have hgain := sum_map_sub_cyclicPairs (fun p => cross (v, p)) ps
  have hsteps : ((cyclicPairs ps).map (Prod.map (· + v) (· + v))).map cross =
      (cyclicPairs ps).map fun step => cross step + (cross (v, step.2) - cross (v, step.1)) := by
    rw [List.map_map]
    exact List.map_congr_left fun step _ => cross_translate v step.1 step.2
  rw [signedArea_eq_sum, signedArea_eq_sum, cyclicPairs_map, hsteps, List.sum_map_add, hgain,
    add_zero]

/-- **Scaled** along the axes, an outline has an area scaled by both factors. -/
theorem signedArea_scale (sx sy : K) (ps : List (Point K)) :
    signedArea (ps.map fun p => ⟨sx * p.x, sy * p.y⟩) = sx * sy * signedArea ps := by
  have hsteps : ((cyclicPairs ps).map
      (Prod.map (fun p => ⟨sx * p.x, sy * p.y⟩) fun p => ⟨sx * p.x, sy * p.y⟩)).map cross =
        (cyclicPairs ps).map fun step => sx * sy * cross step := by
    rw [List.map_map]
    exact List.map_congr_left fun step _ => cross_scale sx sy step.1 step.2
  rw [signedArea_eq_sum, signedArea_eq_sum, cyclicPairs_map, hsteps, List.sum_map_mul_left,
    mul_div_assoc]

/-- Turned where necessary, an outline is the same or its reverse. -/
theorem counterClockwise_eq_or (ps : List (Point K)) :
    counterClockwise ps = ps ∨ counterClockwise ps = ps.reverse := by
  unfold counterClockwise
  split
  · exact Or.inr rfl
  · exact Or.inl rfl

/-- Turned where necessary, an outline has the same neighbours. -/
theorem neighbours_counterClockwise_perm (ps : List (Point K)) :
    ((cyclicPairs (counterClockwise ps)).map fun step => s(step.1, step.2)).Perm
      ((cyclicPairs ps).map fun step => s(step.1, step.2)) := by
  rcases counterClockwise_eq_or ps with hsame | hturned
  · rw [hsame]
  · rw [hturned]
    exact neighbours_reverse_perm ps

/-- **What becomes of the area** when the outline is changed. -/
structure AreaLaws (ps : List (Point K)) : Prop where
  /-- From another start, and led back to its start, an outline has the same area, -/
  signedArea_rotate : ∀ n, signedArea (ps.rotate n) = signedArea ps
  signedArea_append_first : ∀ first, ps.head? = some first →
    signedArea (ps ++ [first]) = signedArea ps
  signedArea_closed : (Ring.closed ps).signedArea = signedArea ps
  /-- and so has one that is moved as a whole. -/
  signedArea_translate : ∀ v : Point K, signedArea (ps.map (· + v)) = signedArea ps
  /-- Backwards it has the opposite area. -/
  signedArea_reverse : signedArea ps.reverse = -signedArea ps
  signedArea_scale : ∀ sx sy : K,
    signedArea (ps.map fun p => ⟨sx * p.x, sy * p.y⟩) = sx * sy * signedArea ps
  /-- Turned where necessary, it is the same or its reverse and has the same neighbours, and it is
  not clockwise. -/
  counterClockwise_eq_or : counterClockwise ps = ps ∨ counterClockwise ps = ps.reverse
  neighbours_perm : ((cyclicPairs (counterClockwise ps)).map fun step => s(step.1, step.2)).Perm
    ((cyclicPairs ps).map fun step => s(step.1, step.2))
  signedArea_counterClockwise_nonneg : 0 ≤ signedArea (counterClockwise ps)

/-! ### Polygons -/

namespace Ring

/-- The ring runs along the outline, led back to its start or not. -/
def Along (r : Ring K) (outline : List (Point K)) : Prop :=
  r = ⟨outline⟩ ∨ r = .closed outline

/-- Two rings along one outline, begun anywhere and run either way. -/
def SameOutline (r s : Ring K) : Prop :=
  ∃ outline turned, r.Along outline ∧ s.Along turned ∧
    (turned ~r outline ∨ turned ~r outline.reverse)

variable {r s : Ring K}

theorem Along.signedArea_eq {outline : List (Point K)} (h : r.Along outline) :
    r.signedArea = Artwork.signedArea outline := by
  rcases h with rfl | rfl
  · rfl
  · exact signedArea_closed outline

/-- Along one outline, rings have the same area but for its sign. -/
theorem SameOutline.abs_eq (h : r.SameOutline s) : |r.signedArea| = |s.signedArea| := by
  obtain ⟨outline, turned, hr, hs, hturned⟩ := h
  rw [hr.signedArea_eq, hs.signedArea_eq]
  rcases hturned with ⟨n, hn⟩ | ⟨n, hn⟩
  · rw [← signedArea_rotate turned n, hn]
  · rw [← signedArea_rotate turned n, hn, signedArea_reverse, abs_neg]

theorem map_abs_eq {rs ss : List (Ring K)} (h : List.Forall₂ SameOutline rs ss) :
    (rs.map fun r => |r.signedArea|) = ss.map fun s => |s.signedArea| := by
  induction h with
  | nil => rfl
  | cons h _ ih => rw [List.map_cons, List.map_cons, h.abs_eq, ih]

end Ring

namespace Polygon

variable [IsStrictOrderedRing K]

/-- The area is that of the exterior less those of the holes, each without its sign. -/
theorem area_eq_sub (p : Polygon K) :
    p.area = |p.exterior.signedArea| - (p.holes.map fun r => |r.signedArea|).sum := by
  unfold area
  rw [Scalar.magnitude_eq_abs, List.sum_eq_foldl, List.foldl_map]
  simp only [Scalar.magnitude_eq_abs]

/-- The area **does not depend** on where the rings begin and which way they run. -/
theorem area_congr {p q : Polygon K} (hexterior : p.exterior.SameOutline q.exterior)
    (hholes : List.Forall₂ Ring.SameOutline p.holes q.holes) : p.area = q.area := by
  rw [area_eq_sub, area_eq_sub, hexterior.abs_eq, Ring.map_abs_eq hholes]

end Polygon

/-- **The laws of the area**, for every outline and for every polygon. -/
theorem area_laws (K : Type) [Field K] [LinearOrder K] [IsStrictOrderedRing K] :
    (∀ ps : List (Point K), AreaLaws ps) ∧
      ∀ p q : Polygon K, p.exterior.SameOutline q.exterior →
        List.Forall₂ Ring.SameOutline p.holes q.holes → p.area = q.area := by
  refine ⟨fun ps => ?_, fun p q hexterior hholes => Polygon.area_congr hexterior hholes⟩
  exact
    { signedArea_rotate := signedArea_rotate ps
      signedArea_append_first := fun first => signedArea_append_first
      signedArea_closed := signedArea_closed ps
      signedArea_translate := fun v => signedArea_translate v ps
      signedArea_reverse := signedArea_reverse ps
      signedArea_scale := fun sx sy => signedArea_scale sx sy ps
      counterClockwise_eq_or := counterClockwise_eq_or ps
      neighbours_perm := neighbours_counterClockwise_perm ps
      signedArea_counterClockwise_nonneg := signedArea_counterClockwise_nonneg ps }

/-- A frame: a rectangle with a triangular hole. -/
def frame : Polygon ℚ :=
  .ofRings [[⟨0, 0⟩, ⟨4, 0⟩, ⟨4, 3⟩, ⟨0, 3⟩], [⟨1, 1⟩, ⟨2, 1⟩, ⟨2, 2⟩]]

/-- The frame with its exterior run clockwise and its hole begun at another corner. -/
def turnedFrame : Polygon ℚ :=
  .ofRings [[⟨4, 3⟩, ⟨4, 0⟩, ⟨0, 0⟩, ⟨0, 3⟩], [⟨2, 2⟩, ⟨1, 1⟩, ⟨2, 1⟩]]

theorem area_laws_frame :
    (frame.exterior.SameOutline turnedFrame.exterior ∧
      List.Forall₂ Ring.SameOutline frame.holes turnedFrame.holes) ∧
      frame.area = turnedFrame.area ∧ frame.area = 23 / 2 ∧
      signedArea turnedFrame.exterior.points = -12 ∧
      signedArea (counterClockwise turnedFrame.exterior.points) = 12 ∧
      AreaLaws turnedFrame.exterior.points := by
  have hexterior : frame.exterior.SameOutline turnedFrame.exterior :=
    ⟨[⟨0, 0⟩, ⟨4, 0⟩, ⟨4, 3⟩, ⟨0, 3⟩], [⟨4, 3⟩, ⟨4, 0⟩, ⟨0, 0⟩, ⟨0, 3⟩], Or.inr rfl, Or.inr rfl,
      Or.inr ⟨3, by decide +kernel⟩⟩
  have hholes : List.Forall₂ Ring.SameOutline frame.holes turnedFrame.holes :=
    .cons ⟨[⟨1, 1⟩, ⟨2, 1⟩, ⟨2, 2⟩], [⟨2, 2⟩, ⟨1, 1⟩, ⟨2, 1⟩], Or.inr rfl, Or.inr rfl,
      Or.inl ⟨1, by decide +kernel⟩⟩ .nil
  obtain ⟨hlaws, hcongr⟩ := area_laws ℚ
  exact ⟨⟨hexterior, hholes⟩, hcongr frame turnedFrame hexterior hholes, by decide +kernel,
    by decide +kernel, by decide +kernel, hlaws _⟩

end Artwork
