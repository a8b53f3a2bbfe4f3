import Artwork.Proofs.Drill
import Artwork.Proofs.Plane.Exact
import Artwork.Proofs.Import.Shape

/-!
**The holes of an import.**

What is filled in exact white is one aperture of layer 0, in the order of painting, and every polygon of
it is a shape of the union with three points or more outside.  So no polygon goes without a hole, and the
holes are in the order of painting.  If the union gives finite coordinates only, the boxes that the holes
are read off are exact; what is rounded is their middle and the mean of their sides.

Main definitions:

* `ContourUnion.Finite` — a union that gives finite coordinates only;
* `ImportRun.filledWhite` — what is filled in white, in the order of painting;
* `ImportRun.Drilling` — **the holes of an import**.

Main results:

* `ImportRun.drills_layout` — the holes are those of what is filled in white;
* `ImportRun.drilling_layout`, `import_drilling` — **one hole for each polygon** filled in white.
-/

set_option relaxedAutoImplicit false
set_option autoImplicit false

namespace Artwork

/-- A union of contours that gives **finite coordinates** only. -/
def ContourUnion.Finite (union : ContourUnion Float) : Prop :=
  ∀ contours rule, ∀ shape ∈ union contours rule, ∀ contour ∈ shape, ∀ p ∈ contour, p.IsFinite

theorem forall₂_filterMap {α β : Type} {f : α → Option β} {P : α → β → Prop} {as : List α}
    (h : ∀ a ∈ as, ∃ b, f a = some b ∧ P a b) : List.Forall₂ P as (as.filterMap f) := by
  induction as with
  | nil => exact .nil
  | cons a as ih =>
      obtain ⟨⟨b, hb, hP⟩, hrest⟩ := List.forall_mem_cons.1 h
      rw [List.filterMap_cons_some hb]
      exact .cons hP (ih hrest)

namespace Polygon.IsUnited

variable {union : ContourUnion Float} {p : Polygon Float} (h : p.IsUnited union)
include h

/-- A shape of the union has three vertices at least. -/
theorem three_le_length : 3 ≤ p.exterior.points.length := by
  obtain ⟨contours, rule, shape, -, hpolygon⟩ := h
  obtain ⟨contour, -, hlength, hexterior⟩ := exists_contour_of_polygonOfShape? hpolygon
  rw [hexterior]
  exact hlength.trans (Ring.length_le_closed contour)

/-- If the union gives finite coordinates only, the exterior is led back through finite points. -/
theorem exists_finite_contour (hunion : union.Finite) :
    ∃ contour, (∀ v ∈ contour, v.IsFinite) ∧ p.exterior = .closed contour := by
  obtain ⟨contours, rule, shape, hshape, hpolygon⟩ := h
  obtain ⟨contour, hcontour, -, hexterior⟩ := exists_contour_of_polygonOfShape? hpolygon
  exact ⟨contour, hunion contours rule shape hshape contour hcontour, hexterior⟩

end Polygon.IsUnited

namespace ImportRun

variable (r : ImportRun)

/-- The polygons that are filled in exact white, in the order of painting. -/
def filledWhite : List (Polygon Float) :=
  (List.range r.lines.length).flatMap fun i =>
    if (r.colorAt Operator.fillColor? i).isWhite then (r.paintedAt i).fill else []

theorem cleared_eq : r.cleared = r.filledWhite.map .clear := by
  unfold cleared filledWhite
  rw [List.map_flatMap]
  refine List.flatMap_congr fun i _ => ?_
  unfold clearAt
  split <;> rfl

/-- The holes of the layout are those of **what is filled in white**. -/
theorem drills_layout : r.layout.drills = r.filledWhite.filterMap Polygon.drill? := by
  have hlayer := LayerBuilder.get?_finish_run_clearLayer r.options.startId
    (r.callsBefore r.lines.length)
  rw [flatMap_cleared_callsBefore, ← layout_eq] at hlayer
  change r.layout.get? clearLayer = if r.cleared.isEmpty then none
    else some (Table.empty.insert clearId ⟨0, r.cleared⟩) at hlayer
  rw [cleared_eq, List.isEmpty_map] at hlayer
  unfold Layout.drills
  rw [hlayer]
  cases hempty : r.filledWhite.isEmpty with
  | true =>
      rw [List.isEmpty_iff.1 hempty]
      rfl
  | false =>
      have hclear : ∀ ps : List (Polygon Float), (ps.map Entry.clear).filter Entry.isClear =
          ps.map Entry.clear := by
        intro ps
        refine List.filter_eq_self.2 fun e he => ?_
        obtain ⟨p, -, rfl⟩ := List.mem_map.1 he
        rfl
      rw [if_neg Bool.false_ne_true]
      dsimp only
      rw [← Layer.entries, Layer.entries_insert_empty, hclear, List.filterMap_map]
      rfl

/-- The polygons that are filled in white are shapes of the union. -/
theorem isUnited_of_mem_filledWhite : ∀ p ∈ r.filledWhite, p.IsUnited r.union := by
  intro p hp
  obtain ⟨i, -, hp⟩ := List.mem_flatMap.1 hp
  split at hp
  · exact isUnited_paintedAt i p (List.mem_append_left _ hp)
  · cases hp

/-- **The holes of an import.** -/
structure Drilling (r : ImportRun) (layout : Layout) : Prop where
  /-- There is one hole for each polygon that is filled in exact white, -/
  length_drills : layout.drills.length = r.filledWhite.length
  /-- its own, in the order of painting, -/
  map_some_drills : layout.drills.map some = r.filledWhite.map Polygon.drill?
  /-- and it is read off a box which, without rounding, gives the hole of the polygon without
  rounding, whose exterior is led back to its start. -/
  forall₂_drills : List.Forall₂ (fun p d => ∃ b outline, p.box? = some b ∧ d = b.drill ∧
    p.exact.exterior = .closed outline ∧ p.exact.Drilled b.exact.drill) r.filledWhite layout.drills

/-- A polygon that is filled in white has a hole, and its box is exact. -/
theorem exists_drill_of_mem_filledWhite (hunion : r.union.Finite) :
    ∀ p ∈ r.filledWhite, ∃ d, p.drill? = some d ∧ ∃ b outline, p.box? = some b ∧ d = b.drill ∧
      p.exact.exterior = .closed outline ∧ p.exact.Drilled b.exact.drill := by
  intro p hp
  have hunited := r.isUnited_of_mem_filledWhite p hp
  have hne : p.exterior.points ≠ [] :=
    List.ne_nil_of_length_pos (Nat.lt_of_lt_of_le (by decide) hunited.three_le_length)
  obtain ⟨d, hd⟩ := Option.isSome_iff_exists.1 (Polygon.isSome_drill? hne)
  obtain ⟨b, hb, rfl⟩ := Option.map_eq_some_iff.1 hd
  obtain ⟨contour, hcontour, hexterior⟩ := hunited.exists_finite_contour hunion
  have hfinite : ∀ v ∈ p.exterior.points, v.IsFinite := by
    intro v hv
    rw [hexterior, Ring.mem_points_closed] at hv
    exact hcontour v hv
  have hclosed : p.exact.exterior = .closed (contour.map Point.exact) := by
    rw [Ring.closed_map_exact hcontour, ← hexterior]
    rfl
  have hbox : p.exact.box? = some b.exact := by
    rw [Polygon.box?_exact hfinite, hb, Option.map_some]
  exact ⟨b.drill, hd, b, _, hb, rfl, hclosed, Polygon.drilled_of_box? hbox⟩

theorem drilling_layout (hunion : r.union.Finite) : r.Drilling r.layout := by
  have hdrill := r.exists_drill_of_mem_filledWhite hunion
  have hown : List.Forall₂ (fun p d => Polygon.drill? p = some d) r.filledWhite r.layout.drills := by
    rw [drills_layout]
    exact forall₂_filterMap fun p hp => (hdrill p hp).imp fun d hd => ⟨hd.1, hd.1⟩
  refine ⟨hown.length_eq.symm, ?_, ?_⟩
  · rw [← List.forall₂_eq_eq_eq, List.forall₂_map_left_iff, List.forall₂_map_right_iff]
    exact hown.flip.imp fun d p hd => hd.symm
  · rw [drills_layout]
    exact forall₂_filterMap hdrill

end ImportRun

/-- **One hole for each polygon** that is filled in exact white.  Options that can be used give a layout
for every text, whose holes are those of the polygons in the order of painting; and without rounding
every polygon with a vertex has a hole, that of the least box around its exterior. -/
theorem import_drilling (union : ContourUnion Float) (hunion : union.Finite)
    (options : ImportOptions) (hsteps : options.curveSteps ≠ 0) (text : List Char) :
    (∃ layout, (importWith union options (fun _ => false) text).1 = .ok layout) ∧
      (∀ abort layout, (importWith union options abort text).1 = .ok layout →
        ImportRun.Drilling ⟨union, options, lines text⟩ layout) ∧
      ∀ (K : Type) [Field K] [LinearOrder K] (p : Polygon K),
        p.exterior.points ≠ [] → ∃ d, p.Drilled d := by
  refine ⟨⟨_, importWith_never union hsteps text⟩, fun abort layout hlayout => ?_,
    fun K _ _ p hp => Polygon.exists_drilled hp⟩
  rw [eq_layout_of_importWith_eq_ok hsteps hlayout]
  exact ImportRun.drilling_layout _ hunion

/-- Contours as shapes of their own, without those that are infinite or undefined somewhere. -/
def finiteShapes : ContourUnion Float :=
  fun contours _ => (contours.filter fun contour =>
    contour.all fun p => p.x.isFinite && p.y.isFinite).map ([·])

theorem finite_finiteShapes : finiteShapes.Finite := by
  intro contours rule shape hshape contour hcontour p hp
  obtain ⟨contour', hmem, rfl⟩ := List.mem_map.1 hshape
  rw [List.mem_singleton.1 hcontour] at hp
  have hfinite := List.all_eq_true.1 (List.mem_filter.1 hmem).2 p hp
  rw [Bool.and_eq_true] at hfinite
  exact ⟨hfinite.1, hfinite.2⟩

/-- The hole of the smaller triangle, and of a triangle without rounding. -/
theorem import_drilling_drilledTriangle :
    finiteShapes.Finite ∧ ({} : ImportOptions).curveSteps ≠ 0 ∧
      (∃ layout, (importWith finiteShapes {} (fun _ => false) drilledTriangle).1 = .ok layout ∧
        layout.drills.length = 1 ∧
        ImportRun.Drilling ⟨finiteShapes, {}, lines drilledTriangle⟩ layout) ∧
      Polygon.Drilled (⟨.closed [⟨7, 1⟩, ⟨9, 1⟩, ⟨9, 4⟩], []⟩ : Polygon ℚ)
        ⟨⟨8, 5 / 2⟩, 5 / 2⟩ := by
  have hsteps : ({} : ImportOptions).curveSteps ≠ 0 := by decide
  have hfilled :
      (ImportRun.filledWhite ⟨finiteShapes, {}, lines drilledTriangle⟩).length = 1 := by
    decide +kernel
  obtain ⟨⟨layout, hlayout⟩, hdrilling, hexact⟩ :=
    import_drilling finiteShapes finite_finiteShapes {} hsteps drilledTriangle
  have hdrills := hdrilling (fun _ => false) layout hlayout
  refine ⟨finite_finiteShapes, hsteps, ⟨layout, hlayout, hdrills.length_drills.trans hfilled,
    hdrills⟩, ?_⟩
  obtain ⟨d, hd⟩ := hexact ℚ ⟨.closed [⟨7, 1⟩, ⟨9, 1⟩, ⟨9, 4⟩], []⟩ (by decide +kernel)
  have hdrill : some d = some ⟨⟨8, 5 / 2⟩, 5 / 2⟩ := hd.drill?_eq.symm.trans (by decide +kernel)
  rwa [Option.some.inj hdrill] at hd

end Artwork
