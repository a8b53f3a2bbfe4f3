import Artwork.Outline
import Artwork.Proofs.Decimal.Distance

/-!
**A polyline that returns to its start.**

Vertices are thinned from the front: a point is dropped if it is the same vertex as the one last kept.
So a polyline with one more point at its end is thinned as before, and then this point is compared
with the last one kept.  If the point is the start of the polyline, it is dropped in any case, by
this comparison or as the return to the start; a polyline has the same vertices with and without it.

Main definitions:

* `lastKept` — the point that is **kept last**.

Main results:

* `thinAfter_concat` — thinning a polyline with one more point;
* `distinctVertices_append_start` — **the return to the start** adds no vertex;
* `fillPolygon_append_start`, `strokePolyline_append_start` — and so it changes neither the filling
  nor the outline of a closed polyline.
-/

set_option relaxedAutoImplicit false
set_option autoImplicit false

namespace Artwork

section Thinning

variable {K : Type} [Scalar K]

/-- The point that is **kept last** when points are thinned after `kept`. -/
def lastKept (kept : Point K) (ps : List (Point K)) : Point K :=
  (thinAfter kept ps).getLast?.getD kept

theorem getLast?_cons_thinAfter (kept : Point K) (ps : List (Point K)) :
    (kept :: thinAfter kept ps).getLast? = some (lastKept kept ps) := by
  rw [List.getLast?_cons]
  rfl

/-- One more point is compared with **the one kept last**. -/
theorem thinAfter_concat (kept p : Point K) (ps : List (Point K)) :
    thinAfter kept (ps ++ [p]) =
      thinAfter kept ps ++ if sameVertex (lastKept kept ps) p then [] else [p] := by
  induction ps generalizing kept with
  | nil => rfl
  | cons q ps ih =>
      unfold lastKept
      rw [List.cons_append, thinAfter, thinAfter]
      split
      · exact ih kept
      · rw [ih q, List.cons_append, List.getLast?_cons]
        rfl

/-- A return to the first vertex is dropped. -/
theorem dropClosing_concat {p q : Point K} (h : sameVertex p q = true) (ps : List (Point K)) :
    dropClosing (p :: ps ++ [q]) = p :: ps := by
  unfold dropClosing
  rw [List.getLast?_concat, List.cons_append, List.head?_cons]
  dsimp only
  rw [if_pos (by simp [h]), ← List.cons_append, List.dropLast_concat]

/-- Vertices that end elsewhere than at the first are all kept. -/
theorem dropClosing_of_getLast? {p last : Point K} {ps : List (Point K)}
    (hlast : (p :: ps).getLast? = some last) (h : sameVertex p last = false) :
    dropClosing (p :: ps) = p :: ps := by
  unfold dropClosing
  rw [hlast, List.head?_cons]
  dsimp only
  rw [h, Bool.and_false]
  rfl

/-! ### Polygons -/

variable (union : ContourUnion K)

/-- A filling depends on the vertices alone. -/
theorem fillPolygon_congr (rule : FillRule) {ps qs : List (Point K)}
    (h : distinctVertices ps = distinctVertices qs) :
    fillPolygon union rule ps = fillPolygon union rule qs := by
  unfold fillPolygon
  rw [h]

variable [Trigonometric K] (width : K) (circleSteps : Nat)

/-- An outline depends on the vertices, and on whether it is closed. -/
theorem strokePolyline_congr {closed closed' : Bool} {ps qs : List (Point K)}
    (h : distinctVertices ps = distinctVertices qs)
    (hclosed : (closed || endsAtStart ps) = (closed' || endsAtStart qs)) :
    strokePolyline union closed width circleSteps ps =
      strokePolyline union closed' width circleSteps qs := by
  unfold strokePolyline
  dsimp only
  rw [h, hclosed]

/-- Of a single vertex there is no outline, closed or not. -/
theorem strokePolyline_of_singleton {p : Point K} (closed : Bool) {ps : List (Point K)}
    (h : distinctVertices ps = [p]) :
    strokePolyline union closed width circleSteps ps =
      if !(Scalar.isFinite width && 0 < width) then .error (.nonPositiveWidth width)
      else .error (.tooFewPoints 1 2) := by
  unfold strokePolyline
  dsimp only
  rw [h]
  rfl

end Thinning

/-! ### The return to the start -/

theorem sameVertex_comm (p q : Point Float) : sameVertex p q = sameVertex q p :=
  Point.near_comm _ p q

theorem sameVertex_self {p : Point Float} (hp : p.IsFinite) : sameVertex p p = true :=
  Point.near_self (by decide +kernel) hp

/-- **The return to the start** adds no vertex. -/
theorem distinctVertices_append_start {p : Point Float} (hp : p.IsFinite) (ps : List (Point Float)) :
    distinctVertices (p :: ps ++ [p]) = distinctVertices (p :: ps) := by
  rw [List.cons_append, distinctVertices, distinctVertices, thinAfter_concat]
  cases hreturn : sameVertex (lastKept p ps) p with
  | true => rw [if_pos rfl, List.append_nil]
  | false =>
      rw [if_neg (by decide), ← List.cons_append, dropClosing_concat (sameVertex_self hp),
        dropClosing_of_getLast? (getLast?_cons_thinAfter p ps)
          ((sameVertex_comm ..).trans hreturn)]

/-- A polyline that is led back ends at its start, unless it is a single point. -/
theorem endsAtStart_append_start {p : Point Float} (hp : p.IsFinite) {ps : List (Point Float)}
    (hps : ps ≠ []) : endsAtStart (p :: ps ++ [p]) = true := by
  have hlength := List.length_pos_of_ne_nil hps
  unfold endsAtStart
  rw [List.getLast?_concat, List.cons_append, List.head?_cons]
  simp [sameVertex_self hp]
  omega

section Float

variable (union : ContourUnion Float)

theorem fillPolygon_append_start (rule : FillRule) {p : Point Float} (hp : p.IsFinite)
    (ps : List (Point Float)) :
    fillPolygon union rule (p :: ps ++ [p]) = fillPolygon union rule (p :: ps) :=
  fillPolygon_congr union rule (distinctVertices_append_start hp ps)

variable (width : Float) (circleSteps : Nat)

/-- The outline of a polyline that returns to its start is **that of the closed polyline**. -/
theorem strokePolyline_append_start {p : Point Float} (hp : p.IsFinite) (closed : Bool)
    (ps : List (Point Float)) :
    strokePolyline union closed width circleSteps (p :: ps ++ [p]) =
      strokePolyline union true width circleSteps (p :: ps) := by
  have hsame := distinctVertices_append_start hp ps
  by_cases hps : ps = []
  · subst hps
    rw [strokePolyline_of_singleton union width circleSteps closed hsame,
      strokePolyline_of_singleton union width circleSteps true rfl]
  · refine strokePolyline_congr union width circleSteps hsame ?_
    rw [endsAtStart_append_start hp hps, Bool.or_true, Bool.true_or]

end Float

end Artwork
