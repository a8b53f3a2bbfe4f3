import Artwork.Outline

/-!
**Every ring of a painted polygon is closed.**

The contours of a union need not return to their start, and may be degenerate.  A polygon is made of
those with three points or more, and each of them is led back to its first point.  Where a point of
the union is equal to itself this makes every ring closed, whatever else the union does.

Main definitions:

* `Ring.IsClosed`, `Polygon.IsClosed`, `Batch.IsClosed` — three points at least, and the last equal
  to the first;
* `ContourUnion.Reflexive` — a union whose points are **equal to themselves**;
* `Polygon.IsUnited`, `Batch.IsUnited` — shapes of the union.

Main results:

* `Ring.isClosed_closed` — a contour that is led back to its start **is closed**;
* `PendingPath.isUnited_paint` — whatever is painted is a shape of the union.
-/

set_option relaxedAutoImplicit false
set_option autoImplicit false

namespace Artwork

variable {K : Type} [Scalar K]

/-- A ring of at least three points that **ends where it starts**. -/
structure Ring.IsClosed (r : Ring K) : Prop where
  three_le_length : 3 ≤ r.points.length
  head_beq_getLast : ∀ first last, r.points.head? = some first → r.points.getLast? = some last →
    (first == last) = true

/-- A polygon whose rings, the exterior and the holes, are all closed. -/
def Polygon.IsClosed (p : Polygon K) : Prop :=
  ∀ r ∈ p.exterior :: p.holes, r.IsClosed

/-- A batch of closed polygons. -/
def Batch.IsClosed (b : Batch K) : Prop :=
  ∀ p ∈ b.fill ++ b.stroke, p.IsClosed

/-- A union of contours whose points are **equal to themselves**. -/
def ContourUnion.Reflexive (union : ContourUnion K) : Prop :=
  ∀ contours rule, ∀ shape ∈ union contours rule, ∀ contour ∈ shape, ∀ p ∈ contour,
    (p == p) = true

/-! ### Rings -/

/-- Led back to its start, a contour of three points or more **is closed**, if its points are equal to
themselves. -/
theorem Ring.isClosed_closed {contour : List (Point K)} (hlength : 3 ≤ contour.length)
    (hself : ∀ p ∈ contour, (p == p) = true) : (Ring.closed contour).IsClosed := by
  cases contour with
  | nil => cases hlength
  | cons first rest =>
      obtain ⟨last, hlast⟩ : ∃ last, (first :: rest).getLast? = some last :=
        ⟨_, List.getLast?_eq_some_getLast (List.cons_ne_nil first rest)⟩
      unfold closed
      rw [List.head?_cons, hlast]
      dsimp only
      split
      · refine ⟨?_, fun p q hp hq => ?_⟩
        · rw [List.length_append]
          omega
        · rw [List.cons_append, List.head?_cons, Option.some.injEq] at hp
          rw [List.getLast?_concat, Option.some.injEq] at hq
          rw [← hp, ← hq]
          exact hself first (List.mem_cons_self ..)
      · next hreturns =>
          refine ⟨hlength, fun p q hp hq => ?_⟩
          rw [List.head?_cons, Option.some.injEq] at hp
          rw [hlast, Option.some.injEq] at hq
          rw [← hp, ← hq]
          simpa [bne] using hreturns

/-! ### Polygons -/

/-- The polygon is a shape of the union, of some contours and under some rule. -/
def Polygon.IsUnited (union : ContourUnion K) (p : Polygon K) : Prop :=
  ∃ contours rule, ∃ shape ∈ union contours rule, polygonOfShape? shape = some p

theorem isClosed_of_polygonOfShape? {shape : List (List (Point K))} {polygon : Polygon K}
    (hself : ∀ contour ∈ shape, ∀ p ∈ contour, (p == p) = true)
    (h : polygonOfShape? shape = some polygon) : polygon.IsClosed := by
  unfold polygonOfShape? at h
  split at h
  · cases h
  · next exterior holes hrings =>
      cases h
      intro r hr
      rw [← hrings] at hr
      obtain ⟨contour, hcontour, rfl⟩ := List.mem_map.1 hr
      obtain ⟨hmem, hlength⟩ := List.mem_filter.1 hcontour
      exact Ring.isClosed_closed (by simpa using hlength) (hself contour hmem)

/-- The exterior of a polygon is a contour of three points or more, led back to its start. -/
theorem exists_contour_of_polygonOfShape? {shape : List (List (Point K))} {polygon : Polygon K}
    (h : polygonOfShape? shape = some polygon) :
    ∃ contour ∈ shape, 3 ≤ contour.length ∧ polygon.exterior = .closed contour := by
  unfold polygonOfShape? at h
  split at h
  · cases h
  · next exterior holes hrings =>
      cases h
      obtain ⟨contour, hcontour, hexterior⟩ :=
        List.mem_map.1 (hrings ▸ List.mem_cons_self : exterior ∈ _)
      obtain ⟨hmem, hlength⟩ := List.mem_filter.1 hcontour
      exact ⟨contour, hmem, by simpa using hlength, hexterior.symm⟩

variable {union : ContourUnion K}

theorem Polygon.IsUnited.isClosed {p : Polygon K} (h : p.IsUnited union)
    (hunion : union.Reflexive) : p.IsClosed := by
  obtain ⟨contours, rule, shape, hshape, hpolygon⟩ := h
  exact isClosed_of_polygonOfShape? (hunion contours rule shape hshape) hpolygon

theorem isUnited_of_unite {contours : List (List (Point K))} {rule : FillRule}
    {polygons : List (Polygon K)} (h : unite union contours rule = .ok polygons) :
    ∀ p ∈ polygons, p.IsUnited union := by
  unfold unite at h
  split at h
  · cases h
  · cases h
    intro p hp
    obtain ⟨shape, hshape, hpolygon⟩ := List.mem_filterMap.1 hp
    exact ⟨contours, rule, shape, hshape, hpolygon⟩

theorem isUnited_of_fillPolygon {rule : FillRule} {ps : List (Point K)}
    {polygons : List (Polygon K)} (h : fillPolygon union rule ps = .ok polygons) :
    ∀ p ∈ polygons, p.IsUnited union := by
  unfold fillPolygon at h
  dsimp only at h
  split at h
  · cases h
  · exact isUnited_of_unite h

theorem isUnited_of_strokePolyline [Trigonometric K] {closed : Bool} {width : K}
    {circleSteps : Nat} {ps : List (Point K)} {polygons : List (Polygon K)}
    (h : strokePolyline union closed width circleSteps ps = .ok polygons) :
    ∀ p ∈ polygons, p.IsUnited union := by
  unfold strokePolyline at h
  dsimp only at h
  split at h
  · cases h
  · split at h
    · cases h
    · exact isUnited_of_unite h

/-! ### Batches -/

namespace Batch

/-- A batch of shapes of the union. -/
def IsUnited (union : ContourUnion K) (b : Batch K) : Prop :=
  ∀ p ∈ b.fill ++ b.stroke, p.IsUnited union

theorem IsUnited.isClosed {b : Batch K} (h : b.IsUnited union) (hunion : union.Reflexive) :
    b.IsClosed :=
  fun p hp => (h p hp).isClosed hunion

theorem isUnited_empty : (empty : Batch K).IsUnited union := by
  intro p hp
  cases hp

namespace IsUnited

variable {b : Batch K} (hb : b.IsUnited union)
  {result : Except (GeometryError K) (List (Polygon K))}
  (hresult : ∀ polygons, result = .ok polygons → ∀ p ∈ polygons, p.IsUnited union)

include hb hresult

theorem addFill : (b.addFill result).IsUnited union := by
  cases result with
  | error e => exact hb
  | ok polygons =>
      intro p hp
      simp only [Batch.addFill, List.append_assoc, List.mem_append] at hp
      rcases hp with hp | hp | hp
      · exact hb p (List.mem_append_left _ hp)
      · exact hresult polygons rfl p hp
      · exact hb p (List.mem_append_right _ hp)

theorem addStroke : (b.addStroke result).IsUnited union := by
  cases result with
  | error e => exact hb
  | ok polygons =>
      intro p hp
      simp only [Batch.addStroke, List.mem_append] at hp
      rcases hp with hp | hp | hp
      · exact hb p (List.mem_append_left _ hp)
      · exact hb p (List.mem_append_right _ hp)
      · exact hresult polygons rfl p hp

end IsUnited

end Batch

section Painting

variable [Trigonometric K]

theorem Batch.IsUnited.addPiece {b : Batch K} (hb : b.IsUnited union) (resolution : Resolution)
    (painting : Painting) (width : K) (piece : Subpath K × Bool) :
    (b.addPiece union resolution painting width piece).IsUnited union := by
  have hfill : ∀ rule, (b.addFill (fillPolygon union rule
      (piece.1.polyline resolution.curve))).IsUnited union :=
    fun rule => hb.addFill fun polygons => isUnited_of_fillPolygon
  cases painting with
  | stroke => exact hb.addStroke fun polygons => isUnited_of_strokePolyline
  | fill rule => exact hfill rule
  | fillAndStroke rule =>
      exact (hfill rule).addStroke fun polygons => isUnited_of_strokePolyline
  | endPath => exact hb

/-- All polygons that are painted are shapes of the union, made closed. -/
theorem PendingPath.isUnited_paint (resolution : Resolution) (painting : Painting) (width : K)
    (path : PendingPath K) : (path.paint union resolution painting width).IsUnited union := by
  suffices hrun : ∀ (pieces : List (Subpath K × Bool)) (b : Batch K), b.IsUnited union →
      (pieces.foldl (Batch.addPiece union resolution painting width) b).IsUnited union from
    hrun path.pieces _ Batch.isUnited_empty
  intro pieces
  induction pieces with
  | nil => exact fun b hb => hb
  | cons piece pieces ih =>
      exact fun b hb => ih _ (hb.addPiece resolution painting width piece)

end Painting

end Artwork
