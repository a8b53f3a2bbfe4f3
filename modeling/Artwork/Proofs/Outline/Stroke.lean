import Mathlib.Data.List.Cycle
import Mathlib.Tactic.Positivity
import Mathlib.Tactic.Ring
import Artwork.Proofs.Plane.Area
import Artwork.Proofs.Plane.Length
import Artwork.Outline

/-!
**The contours of a stroke.**

Where no two points of a polyline count as one, all of them are vertices, and every edge has a length.
Its rectangle is generated with the sides one after the other, and turned if it runs clockwise; with the
way across an edge to its left, it always does.  What is united are the rectangles, one for each edge,
and the circles around the vertices, all of them counter-clockwise.  Drawn in the other direction an edge
has the opposite way across, and so the same rectangle, begun at the opposite corner.

Main definitions:

* `Point.Apart` — points that do not count as one;
* `edgeNormal`, `edgeRectangle` — the way across an edge, and its rectangle, counter-clockwise;
* `IsStrip`, `IsDisk` — what a pen covers along an edge, and around a vertex;
* `SameContours` — contours in any order, each **begun at any of its points**;
* `Outlined` — what is united to outline a polyline.

Main results:

* `edgeContour?_eq_some` — the rectangle of an edge runs counter-clockwise;
* `edgeRectangle_swap` — an edge in the other direction;
* `strokePolyline_outlined` — **the contours of a stroke**, drawn in either direction.
-/

set_option relaxedAutoImplicit false
set_option autoImplicit false

namespace Artwork

/-! ### Points apart -/

section Apart

variable {K : Type} [Scalar K] {ps : List (Point K)}

/-- Points apart from the one last kept are all kept. -/
theorem thinAfter_of_pairwise {kept : Point K}
    (h : (kept :: ps).Pairwise fun p q => sameVertex p q = false) : thinAfter kept ps = ps := by
  induction ps generalizing kept with
  | nil => rfl
  | cons p ps ih =>
      obtain ⟨hkept, hrest⟩ := List.pairwise_cons.1 h
      rw [thinAfter, hkept p (List.mem_cons_self ..), if_neg Bool.false_ne_true, ih hrest]

variable (h : ps.Pairwise fun p q => sameVertex p q = false)
include h

/-- The first of several points apart does not count as one with the last. -/
theorem sameVertex_head_getLast {first last : Point K} (hfirst : ps.head? = some first)
    (hlast : ps.getLast? = some last) (hlength : 1 < ps.length) :
    sameVertex first last = false := by
  match ps, hlength with
  | p :: q :: ps, _ =>
      rw [List.head?_cons, Option.some.injEq] at hfirst
      rw [List.getLast?_cons_cons] at hlast
      rw [← hfirst]
      exact (List.pairwise_cons.1 h).1 last (List.mem_of_getLast? hlast)

theorem distinctVertices_of_pairwise : distinctVertices ps = ps := by
  cases ps with
  | nil => rfl
  | cons p rest =>
      have hlast := List.getLast?_eq_some_getLast (List.cons_ne_nil p rest)
      rw [distinctVertices, thinAfter_of_pairwise h]
      unfold dropClosing
      rw [hlast, List.head?_cons]
      dsimp only
      refine if_neg fun hreturns => ?_
      rw [Bool.and_eq_true, decide_eq_true_iff] at hreturns
      rw [sameVertex_head_getLast h (List.head?_cons ..) hlast hreturns.1] at hreturns
      exact Bool.false_ne_true hreturns.2

theorem endsAtStart_of_pairwise : endsAtStart ps = false := by
  unfold endsAtStart
  split
  · next first last hfirst hlast =>
      rw [Bool.and_eq_false_iff, decide_eq_false_iff_not]
      by_cases hlength : 2 < ps.length
      · exact .inr (sameVertex_head_getLast h hfirst hlast (by omega))
      · exact .inl hlength
  · rfl

end Apart

variable {K : Type} [Field K] [LinearOrder K]

/-- The two points differ by more than one part in 10⁹ along one axis at least. -/
def Point.Apart (p q : Point K) : Prop :=
  ¬(|p.x - q.x| ≤ 1 / 10 ^ 9 ∧ |p.y - q.y| ≤ 1 / 10 ^ 9)

theorem Point.Apart.symm {p q : Point K} (h : p.Apart q) : q.Apart p := by
  unfold Apart at h ⊢
  rwa [abs_sub_comm q.x, abs_sub_comm q.y]

theorem vertexTolerance_eq : (vertexTolerance : K) = 1 / 10 ^ 9 := by
  unfold vertexTolerance
  norm_num

theorem sameVertex_eq_false_iff [IsStrictOrderedRing K] {p q : Point K} :
    sameVertex p q = false ↔ p.Apart q := by
  unfold sameVertex Point.near Point.Apart
  rw [Scalar.magnitude_eq_abs, Scalar.magnitude_eq_abs, vertexTolerance_eq, ← Bool.not_eq_true,
    Bool.and_eq_true, decide_eq_true_iff, decide_eq_true_iff]

/-! ### Rectangles -/

section Rectangle

variable [Trigonometric K]

/-- The way across an edge in the direction `d`, to its left and as long as `radius`. -/
def edgeNormal (radius : K) (d : Point K) : Point K :=
  ⟨-d.y / d.length * radius, d.x / d.length * radius⟩

/-- The rectangle along an edge, from its right to its left and so counter-clockwise. -/
def edgeRectangle (radius : K) (edge : Point K × Point K) : List (Point K) :=
  let n := edgeNormal radius (edge.2 - edge.1)
  [edge.1 - n, edge.2 - n, edge.2 + n, edge.1 + n]

/-- In the other direction the way across is the opposite one. -/
theorem edgeNormal_sub_comm (radius : K) (p q : Point K) :
    edgeNormal radius (p - q) =
      ⟨-(edgeNormal radius (q - p)).x, -(edgeNormal radius (q - p)).y⟩ := by
  unfold edgeNormal
  rw [Point.length_sub_comm p q, Point.mk.injEq]
  simp only [Point.sub_x, Point.sub_y]
  constructor <;> ring

theorem edgeNormal_orthogonal (radius : K) (d : Point K) :
    (edgeNormal radius d).x * d.x + (edgeNormal radius d).y * d.y = 0 := by
  unfold edgeNormal
  ring

/-- In the other direction an edge has the same rectangle, **begun at the opposite corner**. -/
theorem edgeRectangle_swap (radius : K) (edge : Point K × Point K) :
    edgeRectangle radius edge.swap = (edgeRectangle radius edge).rotate 2 := by
  obtain ⟨p, q⟩ := edge
  have hadd : ∀ r n : Point K, r + ⟨-n.x, -n.y⟩ = r - n := fun r n =>
    congrArg₂ Point.mk (sub_eq_add_neg ..).symm (sub_eq_add_neg ..).symm
  have hsub : ∀ r n : Point K, r - ⟨-n.x, -n.y⟩ = r + n := fun r n =>
    congrArg₂ Point.mk (sub_neg_eq_add ..) (sub_neg_eq_add ..)
  unfold edgeRectangle
  dsimp only [Prod.swap]
  rw [edgeNormal_sub_comm radius p q, hadd, hadd, hsub, hsub]
  rfl

variable [IsStrictOrderedRing K] (hroot : ExactRoot K)
include hroot

/-- The edge between points apart is longer than the tolerance. -/
theorem Point.Apart.vertexTolerance_lt {p q : Point K} (h : p.Apart q) :
    vertexTolerance < (q - p).length := by
  obtain ⟨hx, hy⟩ := Point.abs_le_length hroot (q - p)
  by_contra hshort
  rw [not_lt, vertexTolerance_eq] at hshort
  exact h.symm ⟨hx.trans hshort, hy.trans hshort⟩

theorem Point.Apart.length_pos {p q : Point K} (h : p.Apart q) : 0 < (q - p).length := by
  have htolerance : (0 : K) ≤ vertexTolerance := by
    rw [vertexTolerance_eq]
    positivity
  exact htolerance.trans_lt (h.vertexTolerance_lt hroot)

/-- The square of the way across an edge is that of the radius. -/
theorem edgeNormal_mul_self (radius : K) {d : Point K} (h : d.length ≠ 0) :
    (edgeNormal radius d).x * (edgeNormal radius d).x +
      (edgeNormal radius d).y * (edgeNormal radius d).y = radius * radius := by
  have hsq := Point.length_mul_length hroot d
  unfold edgeNormal
  calc
    -d.y / d.length * radius * (-d.y / d.length * radius) +
          d.x / d.length * radius * (d.x / d.length * radius) =
        (d.x * d.x + d.y * d.y) / (d.length * d.length) * (radius * radius) := by ring
    _ = radius * radius := by rw [← hsq, div_self (mul_ne_zero h h), one_mul]

/-- The area of the rectangle is the length of the edge times the width. -/
theorem signedArea_edgeRectangle (radius : K) {edge : Point K × Point K}
    (h : (edge.2 - edge.1).length ≠ 0) :
    signedArea (edgeRectangle radius edge) = edge.1.distance edge.2 * (2 * radius) := by
  have hsq := Point.length_mul_length hroot (edge.2 - edge.1)
  unfold edgeRectangle
  dsimp only
  rw [signedArea_parallelogram, Point.distance_comm]
  unfold edgeNormal Point.distance
  generalize edge.2 - edge.1 = d at h hsq ⊢
  calc
    2 * (d.x * (d.x / d.length * radius) - d.y * (-d.y / d.length * radius)) =
        2 * ((d.x * d.x + d.y * d.y) / d.length * radius) := by ring
    _ = d.length * (2 * radius) := by
      rw [← hsq, mul_div_cancel_right₀ _ h]
      ring

/-- The rectangle of an edge is united **counter-clockwise**. -/
theorem edgeContour?_eq_some {radius : K} (hradius : 0 < radius) {edge : Point K × Point K}
    (h : edge.1.Apart edge.2) :
    edgeContour? radius edge.1 edge.2 = some (edgeRectangle radius edge) := by
  have hlength : 0 < (edge.2 - edge.1).length := h.length_pos hroot
  have harea : 0 < signedArea (edgeRectangle radius edge) := by
    rw [signedArea_edgeRectangle hroot radius hlength.ne', Point.distance_comm]
    unfold Point.distance
    positivity
  unfold edgeContour?
  dsimp only
  rw [if_neg (not_le.2 (h.vertexTolerance_lt hroot))]
  exact congrArg some (counterClockwise_reverse harea)

end Rectangle

/-! ### Edges -/

section Edges

omit [Field K] [LinearOrder K]

/-- The edges from the first point to the last, and the one back if the polyline is closed. -/
theorem edges_eq_append (closed : Bool) {ps : List (Point K)} {first last : Point K}
    (hfirst : ps.head? = some first) (hlast : ps.getLast? = some last) :
    edges closed ps = ps.zip ps.tail ++ if closed then [(last, first)] else [] := by
  cases closed with
  | false => exact (List.append_nil _).symm
  | true => exact cyclicPairs_eq_append hfirst hlast

/-- Backwards the edges are those in the other direction. -/
theorem edges_reverse_perm (closed : Bool) (ps : List (Point K)) :
    (edges closed ps.reverse).Perm ((edges closed ps).map Prod.swap) := by
  cases closed with
  | false =>
      change (ps.reverse.zip ps.reverse.tail).Perm ((ps.zip ps.tail).map Prod.swap)
      rw [zip_tail_reverse]
      exact List.reverse_perm _
  | true =>
      change (cyclicPairs ps.reverse).Perm ((cyclicPairs ps).map Prod.swap)
      rw [cyclicPairs_reverse]
      exact (List.rotate_perm ..).trans (List.reverse_perm _)

/-- From another start a closed polyline has the same edges. -/
theorem edges_rotate_perm (ps : List (Point K)) (n : Nat) :
    (edges true (ps.rotate n)).Perm (edges true ps) := by
  change (cyclicPairs (ps.rotate n)).Perm (cyclicPairs ps)
  rw [cyclicPairs_rotate]
  exact List.rotate_perm ..

/-! ### Contours -/

/-- The same contours, in any order and **each begun at any of its points**. -/
def SameContours (cs ds : List (List (Point K))) : Prop :=
  (cs.map Cycle.ofList).Perm (ds.map Cycle.ofList)

theorem SameContours.append {cs cs' ds ds' : List (List (Point K))} (h : SameContours cs cs')
    (h' : SameContours ds ds') : SameContours (cs ++ ds) (cs' ++ ds') := by
  unfold SameContours at h h' ⊢
  rw [List.map_append, List.map_append]
  exact h.append h'

theorem sameContours_of_perm {cs ds : List (List (Point K))} (h : cs.Perm ds) :
    SameContours cs ds :=
  h.map Cycle.ofList

end Edges

/-- On the way from the first point to the last an edge joins points apart, if each of them is apart
from the next. -/
theorem apart_of_mem_zip_tail {ps : List (Point K)} (hapart : ps.IsChain Point.Apart) :
    ∀ edge ∈ ps.zip ps.tail, edge.1.Apart edge.2 := by
  rw [zip_tail_eq_dropLast_zip]
  intro edge hedge
  exact (List.forall₂_iff_zip.1 (List.isChain_iff_forall₂.1 hapart)).2 hedge

/-- An edge joins points apart. -/
theorem apart_of_mem_edges [IsStrictOrderedRing K] {ps : List (Point K)} (hlength : 2 ≤ ps.length)
    (hapart : ps.Pairwise Point.Apart) (closed : Bool) :
    ∀ edge ∈ edges closed ps, edge.1.Apart edge.2 := by
  have hne : ps ≠ [] := List.ne_nil_of_length_pos (by omega)
  have hfirst := List.head?_eq_some_head hne
  have hlast := List.getLast?_eq_some_getLast hne
  rw [edges_eq_append closed hfirst hlast]
  intro edge hedge
  rcases List.mem_append.1 hedge with hway | hback
  · exact apart_of_mem_zip_tail hapart.isChain edge hway
  · cases closed with
    | false => cases hback
    | true =>
        rw [List.mem_singleton.1 hback]
        exact (sameVertex_eq_false_iff.1
          (sameVertex_head_getLast (hapart.imp sameVertex_eq_false_iff.2) hfirst hlast hlength)).symm

/-! ### Strokes -/

section Strokes

variable [Trigonometric K]

/-- These contours are what is united to outline the polyline. -/
def Unites (closed : Bool) (width : K) (circleSteps : Nat) (ps : List (Point K))
    (contours : List (List (Point K))) : Prop :=
  ∀ union, strokePolyline union closed width circleSteps ps = unite union contours .nonzero

/-- What a pen of this width covers along an edge, counter-clockwise. -/
structure IsStrip (width : K) (edge : Point K × Point K) (contour : List (Point K)) : Prop where
  /-- Its corners are half of the width across the edge from its ends, -/
  exists_normal : ∃ n : Point K, contour = [edge.1 - n, edge.2 - n, edge.2 + n, edge.1 + n] ∧
    n.x * (edge.2 - edge.1).x + n.y * (edge.2 - edge.1).y = 0 ∧
    n.x * n.x + n.y * n.y = width / 2 * (width / 2)
  /-- of which there are four, -/
  length_eq : contour.length = 4
  /-- and its area is as long as the edge and as broad as the pen. -/
  signedArea_eq : signedArea contour = edge.1.distance edge.2 * width

/-- What a pen of this width covers around a vertex, as a polygon of `circleSteps` corners. -/
structure IsDisk (width : K) (circleSteps : Nat) (center : Point K) (contour : List (Point K)) :
    Prop where
  length_eq : contour.length = circleSteps
  /-- The corners are half of the width from the vertex, at equal angles. -/
  exists_angle : ∀ v ∈ contour, ∃ i < circleSteps, ∃ angle : K,
    angle = Trigonometric.turn * (i : K) / (circleSteps : K) ∧
      v = ⟨center.x + width / 2 * Trigonometric.cos angle,
        center.y + width / 2 * Trigonometric.sin angle⟩

theorem isDisk_circle (width : K) (circleSteps : Nat) (center : Point K) :
    IsDisk width circleSteps center (counterClockwise (circle center (width / 2) circleSteps)) where
  length_eq := by
    rw [(counterClockwise_perm _).length_eq, circle, List.length_map, List.length_range]
  exists_angle v hv := by
    rw [(counterClockwise_perm _).mem_iff] at hv
    obtain ⟨i, hi, rfl⟩ := List.mem_map.1 hv
    exact ⟨i, List.mem_range.1 hi, _, rfl, rfl⟩

theorem map_signedArea_eq {width : K} {es : List (Point K × Point K)} {cs : List (List (Point K))}
    (h : List.Forall₂ (IsStrip width) es cs) :
    cs.map signedArea = es.map fun edge => edge.1.distance edge.2 * width := by
  induction h with
  | nil => rfl
  | cons hstrip _ ih => rw [List.map_cons, List.map_cons, hstrip.signedArea_eq, ih]

/-- The contours of a stroke. -/
structure Outlined (closed : Bool) (width : K) (circleSteps : Nat) (ps : List (Point K))
    (rectangles circles : List (List (Point K))) : Prop where
  /-- Rectangles and circles are united, -/
  unites : Unites closed width circleSteps ps (rectangles ++ circles)
  /-- one rectangle for each edge, with one back to the start if the polyline is closed, -/
  isStrip : ∀ first last, ps.head? = some first → ps.getLast? = some last →
    List.Forall₂ (IsStrip width) (ps.zip ps.tail ++ if closed then [(last, first)] else []) rectangles
  /-- and one circle around each vertex, -/
  isDisk : List.Forall₂ (IsDisk width circleSteps) ps circles
  /-- none of them clockwise. -/
  signedArea_nonneg : ∀ c ∈ rectangles ++ circles, 0 ≤ signedArea c
  /-- Drawn backwards a polyline has the same contours, -/
  reverse : ∃ contours, Unites closed width circleSteps ps.reverse contours ∧
    SameContours contours (rectangles ++ circles)
  /-- and so has a closed one drawn from another start. -/
  rotate : closed = true → ∀ n, ∃ contours,
    Unites closed width circleSteps (ps.rotate n) contours ∧
      SameContours contours (rectangles ++ circles)

/-- The rectangles along the edges. -/
def strokeRectangles (closed : Bool) (radius : K) (ps : List (Point K)) : List (List (Point K)) :=
  (edges closed ps).map (edgeRectangle radius)

/-- The circles around the vertices. -/
def strokeCircles (radius : K) (circleSteps : Nat) (ps : List (Point K)) : List (List (Point K)) :=
  ps.map fun p => counterClockwise (circle p radius circleSteps)

/-- In other directions edges have the same rectangles. -/
theorem sameContours_map_swap (radius : K) (es : List (Point K × Point K)) :
    SameContours ((es.map Prod.swap).map (edgeRectangle radius)) (es.map (edgeRectangle radius)) := by
  unfold SameContours
  rw [List.map_map, List.map_map, List.map_map]
  refine List.Perm.of_eq (List.map_congr_left fun edge _ => ?_)
  refine Cycle.coe_eq_coe.2 ?_
  rw [edgeRectangle_swap]
  exact List.IsRotated.symm ⟨2, rfl⟩

/-- Drawn backwards a stroke is made of the same contours. -/
theorem sameContours_reverse (closed : Bool) (radius : K) (circleSteps : Nat) (ps : List (Point K)) :
    SameContours
      (strokeRectangles closed radius ps.reverse ++ strokeCircles radius circleSteps ps.reverse)
      (strokeRectangles closed radius ps ++ strokeCircles radius circleSteps ps) := by
  refine SameContours.append ?_ (sameContours_of_perm ((List.reverse_perm ps).map _))
  have hedges := sameContours_of_perm ((edges_reverse_perm closed ps).map (edgeRectangle radius))
  exact hedges.trans (sameContours_map_swap radius (edges closed ps))

/-- Drawn from another start a closed stroke is made of the same contours. -/
theorem sameContours_rotate (radius : K) (circleSteps : Nat) (ps : List (Point K)) (n : Nat) :
    SameContours
      (strokeRectangles true radius (ps.rotate n) ++ strokeCircles radius circleSteps (ps.rotate n))
      (strokeRectangles true radius ps ++ strokeCircles radius circleSteps ps) :=
  SameContours.append (sameContours_of_perm ((edges_rotate_perm ps n).map (edgeRectangle radius)))
    (sameContours_of_perm ((List.rotate_perm ps n).map _))

theorem isStrip_edgeRectangle [IsStrictOrderedRing K] (hroot : ExactRoot K)
    {edge : Point K × Point K} (hedge : edge.1.Apart edge.2) (width : K) :
    IsStrip width edge (edgeRectangle (width / 2) edge) where
  exists_normal := by
    have hlength := (hedge.length_pos hroot).ne'
    exact ⟨edgeNormal (width / 2) (edge.2 - edge.1), rfl, edgeNormal_orthogonal ..,
      edgeNormal_mul_self hroot _ hlength⟩
  length_eq := rfl
  signedArea_eq := by
    rw [signedArea_edgeRectangle hroot _ (hedge.length_pos hroot).ne', mul_div_cancel₀ _ two_ne_zero]

/-- What is united are the contours along the vertices of the polyline, if there are two of them and
the pen has a width. -/
theorem unites_strokeContours [IsStrictOrderedRing K] {ps : List (Point K)}
    (hlength : 2 ≤ (distinctVertices ps).length) {width : K} (hwidth : 0 < width) (closed : Bool)
    (circleSteps : Nat) :
    Unites closed width circleSteps ps
      (strokeContours (closed || endsAtStart ps) (width / 2) circleSteps (distinctVertices ps)) := by
  intro union
  have hfinite : Scalar.isFinite width = true := by
    unfold Scalar.isFinite
    rw [sub_self, beq_self_eq_true]
  unfold strokePolyline
  rw [hfinite, Nat.cast_ofNat]
  dsimp only
  rw [if_neg (by simpa using hwidth), if_neg (by omega)]

section Exact

variable [IsStrictOrderedRing K] {ps : List (Point K)} (hlength : 2 ≤ ps.length)
  (hapart : ps.Pairwise Point.Apart) (hroot : ExactRoot K) {width : K} (hwidth : 0 < width)
include hlength hapart hroot hwidth

theorem strokeContours_eq_append (closed : Bool) (circleSteps : Nat) :
    strokeContours closed (width / 2) circleSteps ps =
      strokeRectangles closed (width / 2) ps ++ strokeCircles (width / 2) circleSteps ps := by
  refine congrArg (· ++ strokeCircles (width / 2) circleSteps ps) ?_
  refine List.filterMap_eq_map_iff_forall_eq_some.2 fun edge hedge => ?_
  exact edgeContour?_eq_some hroot (half_pos hwidth)
    (apart_of_mem_edges hlength hapart closed edge hedge)

/-- What is united are the rectangles and the circles. -/
theorem unites_append (closed : Bool) (circleSteps : Nat) :
    Unites closed width circleSteps ps
      (strokeRectangles closed (width / 2) ps ++ strokeCircles (width / 2) circleSteps ps) := by
  have hsame := hapart.imp sameVertex_eq_false_iff.2
  have hvertices : distinctVertices ps = ps := distinctVertices_of_pairwise hsame
  have hunites := unites_strokeContours (by rwa [hvertices]) hwidth closed circleSteps
  rwa [hvertices, endsAtStart_of_pairwise hsame, Bool.or_false,
    strokeContours_eq_append hlength hapart hroot hwidth] at hunites

/-- **The contours of a stroke** through points apart, drawn in either direction. -/
theorem strokePolyline_outlined (closed : Bool) (circleSteps : Nat) :
    ∃ rectangles circles, Outlined closed width circleSteps ps rectangles circles := by
  have hstrip : ∀ edge ∈ edges closed ps, IsStrip width edge (edgeRectangle (width / 2) edge) :=
    fun edge hedge =>
      isStrip_edgeRectangle hroot (apart_of_mem_edges hlength hapart closed edge hedge) width
  have hbackwards : Unites closed width circleSteps ps.reverse _ :=
    unites_append (by rwa [List.length_reverse])
      (List.pairwise_reverse.2 (hapart.imp Point.Apart.symm)) hroot hwidth closed circleSteps
  refine ⟨strokeRectangles closed (width / 2) ps, strokeCircles (width / 2) circleSteps ps,
    { unites := unites_append hlength hapart hroot hwidth closed circleSteps
      isStrip := fun first last hfirst hlast => ?isStrip
      isDisk := ?isDisk
      signedArea_nonneg := fun c hc => ?signedArea_nonneg
      reverse := ⟨_, hbackwards, sameContours_reverse closed _ circleSteps ps⟩
      rotate := fun hclosed n => ?rotate }⟩
  case isStrip =>
    rw [← edges_eq_append closed hfirst hlast]
    exact List.forall₂_map_right_iff.2 (List.forall₂_same.2 hstrip)
  case isDisk =>
    exact List.forall₂_map_right_iff.2
      (List.forall₂_same.2 fun p _ => isDisk_circle width circleSteps p)
  case signedArea_nonneg =>
    rcases List.mem_append.1 hc with hc | hc
    · obtain ⟨edge, hedge, rfl⟩ := List.mem_map.1 hc
      rw [(hstrip edge hedge).signedArea_eq]
      exact mul_nonneg (Point.length_nonneg hroot _) hwidth.le
    · obtain ⟨p, -, rfl⟩ := List.mem_map.1 hc
      exact signedArea_counterClockwise_nonneg _
  case rotate =>
    subst hclosed
    have hperm : (ps.rotate n).Perm ps := List.rotate_perm ..
    have hturned : Unites true width circleSteps (ps.rotate n) _ :=
      unites_append (by rwa [List.length_rotate])
        ((hperm.pairwise_iff Point.Apart.symm).2 hapart) hroot hwidth true circleSteps
    exact ⟨_, hturned, sameContours_rotate _ circleSteps ps n⟩

end Exact

end Strokes

/-! ### Strokes in the real plane -/

/-- The corners of a right triangle. -/
noncomputable def rightTriangle : List (Point ℝ) :=
  [⟨0, 0⟩, ⟨4, 0⟩, ⟨4, 3⟩]

theorem pairwise_apart_rightTriangle : rightTriangle.Pairwise Point.Apart := by
  simp [rightTriangle, Point.Apart]
  norm_num

/-- The contours of a triangle that is drawn with a pen of width 2, closed and left open. -/
theorem strokePolyline_outlined_rightTriangle :
    ExactRoot ℝ ∧ 0 < (2 : ℝ) ∧ 2 ≤ rightTriangle.length ∧ rightTriangle.Pairwise Point.Apart ∧
      (∃ rectangles circles, Outlined true 2 16 rightTriangle rectangles circles ∧
        rectangles.map signedArea = [8, 6, 10] ∧ circles.length = 3) ∧
      ∃ rectangles circles, Outlined false 2 16 rightTriangle rectangles circles ∧
        rectangles.map signedArea = [8, 6] ∧ circles.length = 3 := by
  have htwo : (0 : ℝ) < 2 := two_pos
  have hlength : 2 ≤ rightTriangle.length := by simp [rightTriangle]
  have hapart := pairwise_apart_rightTriangle
  have hbase : Point.distance (⟨0, 0⟩ : Point ℝ) ⟨4, 0⟩ = 4 :=
    distance_eq_of_mul_self (by norm_num) (by norm_num)
  have hside : Point.distance (⟨4, 0⟩ : Point ℝ) ⟨4, 3⟩ = 3 :=
    distance_eq_of_mul_self (by norm_num) (by norm_num)
  have hback : Point.distance (⟨4, 3⟩ : Point ℝ) ⟨0, 0⟩ = 5 :=
    distance_eq_of_mul_self (by norm_num) (by norm_num)
  refine ⟨exactRoot_real, htwo, hlength, hapart, ?_, ?_⟩
  · obtain ⟨rectangles, circles, h⟩ :=
      strokePolyline_outlined hlength hapart exactRoot_real htwo true 16
    refine ⟨rectangles, circles, h, ?_, h.isDisk.length_eq.symm⟩
    rw [map_signedArea_eq (h.isStrip _ _ rfl rfl)]
    change [Point.distance ⟨0, 0⟩ ⟨4, 0⟩ * 2, Point.distance ⟨4, 0⟩ ⟨4, 3⟩ * 2,
      Point.distance ⟨4, 3⟩ ⟨0, 0⟩ * 2] = [8, 6, 10]
    rw [hbase, hside, hback]
    norm_num
  · obtain ⟨rectangles, circles, h⟩ :=
      strokePolyline_outlined hlength hapart exactRoot_real htwo false 16
    refine ⟨rectangles, circles, h, ?_, h.isDisk.length_eq.symm⟩
    rw [map_signedArea_eq (h.isStrip _ _ rfl rfl)]
    change [Point.distance ⟨0, 0⟩ ⟨4, 0⟩ * 2, Point.distance ⟨4, 0⟩ ⟨4, 3⟩ * 2] = [8, 6]
    rw [hbase, hside]
    norm_num

end Artwork
