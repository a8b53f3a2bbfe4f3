import Mathlib.Analysis.Real.Sqrt
import Mathlib.Data.List.Destutter
import Artwork.Proofs.Outline.Stroke
import Artwork.Proofs.Outline.Vertices

/-!
**The vertices of a polyline.**

Closeness is not transitive.  A point is compared with the one kept last and not with the one before it,
so that a row of points which drift away slowly is not dropped as a whole: each of them is close to a
point that is kept, and a point that is kept is not close to the next.  After that the last vertex may be
dropped for being close to the first.  What was close to it is then within twice the tolerance of the
first, and the vertex before it may be close to the first as well: of all edges of a stroke only the one
back to the start can be too short to be drawn.

Main definitions:

* `Thinned` — what the vertices of a polyline have to do with its points;
* `DrawnAlong` — the edges of a stroke **along the vertices**.

Main results:

* `cons_thinAfter_eq_destutter'` — thinning drops what is close to the point kept last;
* `exists_sameVertex_of_mem` — every point is close to one that is kept;
* `exists_distinctVertices_eq` — only the last vertex **may be missing** after that;
* `thinned_and_drawnAlong` — the vertices of any polyline, and the stroke along them.
-/

set_option relaxedAutoImplicit false
set_option autoImplicit false

namespace Artwork

/-! ### Points that are kept -/

section Scalar

variable {K : Type} [Scalar K]

/-- Thinning drops what is close to **the point kept last**. -/
theorem cons_thinAfter_eq_destutter' (kept : Point K) (ps : List (Point K)) :
    kept :: thinAfter kept ps = ps.destutter' (fun p q => sameVertex p q = false) kept := by
  induction ps generalizing kept with
  | nil => rfl
  | cons p ps ih =>
      rw [thinAfter, List.destutter'_cons]
      cases hsame : sameVertex kept p with
      | true => simp [ih]
      | false => simp [ih]

/-- After thinning only the last vertex **may be missing**, and only if it is close to the first. -/
theorem exists_distinctVertices_eq (p : Point K) (ps : List (Point K)) :
    ∃ vs, distinctVertices (p :: ps) = p :: vs ∧
      (thinAfter p ps = vs ∨ ∃ last, thinAfter p ps = vs ++ [last] ∧ sameVertex p last = true) := by
  rw [distinctVertices]
  rcases List.eq_nil_or_concat (thinAfter p ps) with hnil | ⟨vs, last, hvs⟩
  · rw [hnil]
    exact ⟨[], rfl, Or.inl rfl⟩
  · rw [List.concat_eq_append] at hvs
    rw [hvs]
    cases hsame : sameVertex p last with
    | true => exact ⟨vs, dropClosing_concat hsame vs, Or.inr ⟨last, rfl, hsame⟩⟩
    | false =>
        refine ⟨vs ++ [last], dropClosing_of_getLast? ?_ hsame, Or.inl rfl⟩
        rw [← List.cons_append, List.getLast?_concat]

/-- Where every point is close to itself, every point is close to **one that is kept**. -/
theorem exists_sameVertex_of_mem (hself : ∀ p : Point K, sameVertex p p = true) {kept q : Point K}
    {ps : List (Point K)} (hq : q ∈ kept :: ps) :
    ∃ v ∈ kept :: thinAfter kept ps, sameVertex v q = true := by
  induction ps generalizing kept with
  | nil =>
      rw [List.mem_singleton] at hq
      subst hq
      exact ⟨q, List.mem_cons_self .., hself q⟩
  | cons p ps ih =>
      rw [thinAfter]
      rcases List.mem_cons.1 hq with rfl | hq
      · exact ⟨q, List.mem_cons_self .., hself q⟩
      cases hsame : sameVertex kept p with
      | true =>
          -- the point is dropped, and the ones after it are compared with the same one as before
          rw [if_pos rfl]
          rcases List.mem_cons.1 hq with rfl | hq
          · exact ⟨kept, List.mem_cons_self .., hsame⟩
          · exact ih (List.mem_cons_of_mem _ hq)
      | false =>
          rw [if_neg Bool.false_ne_true]
          obtain ⟨v, hv, hclose⟩ := ih hq
          exact ⟨v, List.mem_cons_of_mem _ hv, hclose⟩

end Scalar

/-! ### The vertices -/

variable {K : Type} [Field K] [LinearOrder K]

/-- What the vertices of a polyline **have to do with its points**. -/
structure Thinned (ps vs : List (Point K)) : Prop where
  /-- There is a vertex, and the first one is the first point. -/
  ne_nil : vs ≠ []
  head?_eq : vs.head? = ps.head?
  /-- Vertices are points of the polyline, in their order, -/
  sublist : vs.Sublist ps
  /-- each apart from the next. -/
  isChain_apart : vs.IsChain Point.Apart
  /-- Every point is within twice the tolerance of a vertex, along both axes. -/
  exists_within : ∀ p ∈ ps, ∃ v ∈ vs, |p.x - v.x| ≤ 2 / 10 ^ 9 ∧ |p.y - v.y| ≤ 2 / 10 ^ 9
  /-- Points that are all apart are all vertices. -/
  eq_of_pairwise : ps.Pairwise Point.Apart → vs = ps

variable [IsStrictOrderedRing K]

theorem sameVertex_iff {p q : Point K} :
    sameVertex p q = true ↔ |p.x - q.x| ≤ 1 / 10 ^ 9 ∧ |p.y - q.y| ≤ 1 / 10 ^ 9 := by
  rw [← Bool.not_eq_false, sameVertex_eq_false_iff, Point.Apart, not_not]

theorem sameVertex_refl (p : Point K) : sameVertex p p = true := by
  have hpos : (0 : K) ≤ 1 / 10 ^ 9 := by positivity
  rw [sameVertex_iff, sub_self, sub_self, abs_zero]
  exact ⟨hpos, hpos⟩

/-- What is close to a point that is close to another is within twice the tolerance of that
one. -/
theorem within_of_sameVertex {p v q : Point K} (hv : sameVertex p v = true)
    (hq : sameVertex v q = true) : |q.x - p.x| ≤ 2 / 10 ^ 9 ∧ |q.y - p.y| ≤ 2 / 10 ^ 9 := by
  obtain ⟨hvx, hvy⟩ := sameVertex_iff.1 hv
  obtain ⟨hqx, hqy⟩ := sameVertex_iff.1 hq
  have htwice : (2 : K) / 10 ^ 9 = 1 / 10 ^ 9 + 1 / 10 ^ 9 := by ring
  rw [htwice, abs_sub_comm q.x, abs_sub_comm q.y]
  exact ⟨(abs_sub_le p.x v.x q.x).trans (add_le_add hvx hqx),
    (abs_sub_le p.y v.y q.y).trans (add_le_add hvy hqy)⟩

/-- Every point is close to a vertex, or close to the last point kept, which is close to the
first. -/
theorem exists_within_of_mem {p q : Point K} {ps vs : List (Point K)}
    (hvs : thinAfter p ps = vs ∨ ∃ last, thinAfter p ps = vs ++ [last] ∧ sameVertex p last = true)
    (hq : q ∈ p :: ps) :
    ∃ v ∈ p :: vs, |q.x - v.x| ≤ 2 / 10 ^ 9 ∧ |q.y - v.y| ≤ 2 / 10 ^ 9 := by
  obtain ⟨v, hv, hclose⟩ := exists_sameVertex_of_mem sameVertex_refl hq
  rcases hvs with hall | ⟨last, hlast, hreturn⟩
  · rw [hall] at hv
    exact ⟨v, hv, within_of_sameVertex (sameVertex_refl v) hclose⟩
  · rw [hlast, ← List.cons_append] at hv
    rcases List.mem_append.1 hv with hv | hv
    · exact ⟨v, hv, within_of_sameVertex (sameVertex_refl v) hclose⟩
    · rw [List.mem_singleton] at hv
      subst hv
      exact ⟨p, List.mem_cons_self .., within_of_sameVertex hreturn hclose⟩

/-- The vertices of a polyline are its points, thinned. -/
theorem thinned_distinctVertices {ps : List (Point K)} (hps : ps ≠ []) :
    Thinned ps (distinctVertices ps) := by
  cases ps with
  | nil => exact absurd rfl hps
  | cons p rest =>
      obtain ⟨vs, heq, hvs⟩ := exists_distinctVertices_eq p rest
      have hprefix : p :: vs <+: p :: thinAfter p rest := by
        rcases hvs with hall | ⟨last, hlast, -⟩
        · rw [hall]
        · rw [hlast]
          exact List.prefix_append (p :: vs) [last]
      have hchain : (p :: thinAfter p rest).IsChain fun v w => sameVertex v w = false := by
        rw [cons_thinAfter_eq_destutter']
        exact List.isChain_destutter' _ rest p
      have hvertices := List.IsChain.prefix hchain hprefix
      have hsublist : (p :: thinAfter p rest).Sublist (p :: rest) := by
        rw [cons_thinAfter_eq_destutter']
        exact List.destutter'_sublist rest _ p
      rw [heq]
      exact
        { ne_nil := List.cons_ne_nil p vs
          head?_eq := rfl
          sublist := hprefix.sublist.trans hsublist
          isChain_apart := hvertices.imp fun _ _ => sameVertex_eq_false_iff.1
          exists_within := fun q hq => exists_within_of_mem hvs hq
          eq_of_pairwise := fun hapart =>
            heq.symm.trans (distinctVertices_of_pairwise (hapart.imp sameVertex_eq_false_iff.2)) }

/-! ### The stroke along the vertices -/

section Drawn

variable [Trigonometric K]

omit [IsStrictOrderedRing K] in
theorem edgeContour?_eq_none_iff {radius : K} {p q : Point K} :
    edgeContour? radius p q = none ↔ p.distance q ≤ 1 / 10 ^ 9 := by
  unfold edgeContour?
  rw [Point.distance_comm, Point.distance, ← vertexTolerance_eq]
  dsimp only
  split
  · next hshort => exact iff_of_true rfl hshort
  · next hlong => exact iff_of_false nofun hlong

/-- **The edges of a stroke** along the vertices of a polyline. -/
structure DrawnAlong (closed : Bool) (width : K) (circleSteps : Nat) (ps vs : List (Point K)) :
    Prop where
  /-- An edge from one vertex to the next is longer than the tolerance. -/
  lt_distance : ∀ edge ∈ vs.zip vs.tail, 1 / 10 ^ 9 < edge.1.distance edge.2
  /-- The one back to the start is left out exactly if it is not. -/
  edgeContour?_eq_none_iff : ∀ first last, vs.head? = some first → vs.getLast? = some last →
    (edgeContour? (width / 2) last first = none ↔ last.distance first ≤ 1 / 10 ^ 9)
  /-- What is united are the rectangles of all edges from one vertex to the next, that of the edge back
  to the start, if the polyline is closed and the edge is not left out, and the circles. -/
  unites : ∀ first last, vs.head? = some first → vs.getLast? = some last →
    Unites closed width circleSteps ps
      ((vs.zip vs.tail).map (edgeRectangle (width / 2)) ++
        (if closed || endsAtStart ps then (edgeContour? (width / 2) last first).toList else []) ++
          strokeCircles (width / 2) circleSteps vs)

/-- Along vertices that are apart no edge is left out but the one back to the start. -/
theorem strokeContours_of_isChain (hroot : ExactRoot K) {radius : K} (hradius : 0 < radius)
    {vs : List (Point K)} (hapart : vs.IsChain Point.Apart) (closed : Bool) (circleSteps : Nat)
    {first last : Point K} (hfirst : vs.head? = some first) (hlast : vs.getLast? = some last) :
    strokeContours closed radius circleSteps vs =
      (vs.zip vs.tail).map (edgeRectangle radius) ++
        (if closed then (edgeContour? radius last first).toList else []) ++
          strokeCircles radius circleSteps vs := by
  have hway : (vs.zip vs.tail).filterMap (fun edge => edgeContour? radius edge.1 edge.2) =
      (vs.zip vs.tail).map (edgeRectangle radius) := by
    refine List.filterMap_eq_map_iff_forall_eq_some.2 fun edge hedge => ?_
    exact edgeContour?_eq_some hroot hradius (apart_of_mem_zip_tail hapart edge hedge)
  have hback : (if closed then [(last, first)] else []).filterMap
      (fun edge => edgeContour? radius edge.1 edge.2) =
        if closed then (edgeContour? radius last first).toList else [] := by
    cases closed with
    | false => rfl
    | true => cases hcontour : edgeContour? radius last first <;> simp [hcontour]
  rw [← hway, ← hback, ← List.filterMap_append, ← edges_eq_append closed hfirst hlast]
  rfl

/-- A stroke is drawn along the vertices of its polyline. -/
theorem drawnAlong_distinctVertices (hroot : ExactRoot K) {ps : List (Point K)}
    (hlength : 2 ≤ (distinctVertices ps).length) {width : K} (hwidth : 0 < width) (closed : Bool)
    (circleSteps : Nat) :
    DrawnAlong closed width circleSteps ps (distinctVertices ps) := by
  have hps : ps ≠ [] := by
    intro hnil
    subst hnil
    cases hlength
  have hapart := (thinned_distinctVertices hps).isChain_apart
  refine
    { lt_distance := fun edge hedge => ?lt_distance
      edgeContour?_eq_none_iff := fun first last _ _ => edgeContour?_eq_none_iff
      unites := fun first last hfirst hlast => ?unites }
  case lt_distance =>
    rw [Point.distance_comm, ← vertexTolerance_eq]
    exact (apart_of_mem_zip_tail hapart edge hedge).vertexTolerance_lt hroot
  case unites =>
    rw [← strokeContours_of_isChain hroot (half_pos hwidth) hapart _ circleSteps hfirst hlast]
    exact unites_strokeContours hlength hwidth closed circleSteps

/-- **The vertices of a polyline** are its points, thinned; and where square roots are exact, a stroke
is drawn along them. -/
theorem thinned_and_drawnAlong {ps : List (Point K)} (hps : ps ≠ []) :
    Thinned ps (distinctVertices ps) ∧
      (ExactRoot K → ∀ closed width circleSteps, 0 < width → 2 ≤ (distinctVertices ps).length →
        DrawnAlong closed width circleSteps ps (distinctVertices ps)) :=
  ⟨thinned_distinctVertices hps, fun hroot closed _ circleSteps hwidth hlength =>
    drawnAlong_distinctVertices hroot hlength hwidth closed circleSteps⟩

end Drawn

/-! ### A return that is missed -/

/-- A needle whose last two points are both close to the first and not to each other. -/
noncomputable def needle : List (Point ℝ) :=
  [⟨0, 0⟩, ⟨1, 0⟩, ⟨1, 5e-10⟩, ⟨0, -8e-10⟩, ⟨0, 8e-10⟩]

theorem distinctVertices_needle :
    distinctVertices needle = [⟨0, 0⟩, ⟨1, 0⟩, ⟨0, -8e-10⟩] := by
  have hbase : sameVertex (⟨0, 0⟩ : Point ℝ) ⟨1, 0⟩ = false :=
    sameVertex_eq_false_iff.2 (by unfold Point.Apart; norm_num)
  have hdrift : sameVertex (⟨1, 0⟩ : Point ℝ) ⟨1, 5e-10⟩ = true :=
    sameVertex_iff.2 (by norm_num [abs_le])
  have hside : sameVertex (⟨1, 0⟩ : Point ℝ) ⟨0, -8e-10⟩ = false :=
    sameVertex_eq_false_iff.2 (by unfold Point.Apart; norm_num)
  have hlast : sameVertex (⟨0, -8e-10⟩ : Point ℝ) ⟨0, 8e-10⟩ = false :=
    sameVertex_eq_false_iff.2 (by unfold Point.Apart; norm_num [abs_le])
  have hreturn : sameVertex (⟨0, 0⟩ : Point ℝ) ⟨0, 8e-10⟩ = true :=
    sameVertex_iff.2 (by norm_num [abs_le])
  rw [needle, distinctVertices]
  simp only [thinAfter, hbase, hdrift, hside, hlast, if_true, Bool.false_eq_true, if_false]
  exact dropClosing_concat hreturn [⟨1, 0⟩, ⟨0, -8e-10⟩]

/-- The edge back to the start is **left out** here, and the two before it are drawn. -/
theorem thinned_and_drawnAlong_needle :
    needle ≠ [] ∧ Thinned needle (distinctVertices needle) ∧
      ExactRoot ℝ ∧ (0 : ℝ) < 2 ∧ 2 ≤ (distinctVertices needle).length ∧
      DrawnAlong true 2 16 needle (distinctVertices needle) ∧
      edgeContour? (2 / 2) (⟨0, -8e-10⟩ : Point ℝ) ⟨0, 0⟩ = none := by
  have hneedle : needle ≠ [] := List.cons_ne_nil _ _
  have hlength : 2 ≤ (distinctVertices needle).length := by
    rw [distinctVertices_needle]
    decide
  obtain ⟨hthinned, hdrawn⟩ := thinned_and_drawnAlong hneedle
  have hstroke := hdrawn exactRoot_real true 2 16 two_pos hlength
  refine ⟨hneedle, hthinned, exactRoot_real, two_pos, hlength, hstroke, ?_⟩
  rw [distinctVertices_needle] at hstroke
  refine (hstroke.edgeContour?_eq_none_iff ⟨0, 0⟩ ⟨0, -8e-10⟩ rfl rfl).2 ?_
  have hdistance : (⟨0, -8e-10⟩ : Point ℝ).distance ⟨0, 0⟩ = 8e-10 := by
    refine distance_eq_of_mul_self (by positivity) ?_
    rw [Point.sub_x, Point.sub_y]
    norm_num
  rw [hdistance]
  norm_num

end Artwork
