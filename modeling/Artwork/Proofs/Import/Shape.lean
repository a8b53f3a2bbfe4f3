import Artwork.Proofs.Import.Cancellation
import Artwork.Proofs.Import.Conservation
import Artwork.Proofs.Layer.Shape

/-!
**What an import ends in.**

Every layout that an import gives is of one form, whatever the text is and whatever the union of
contours does, as long as the union gives no undefined coordinate.  Pruning the layout in the end
takes nothing away.

Main definitions:

* `ContourUnion.Defined` — a union **without undefined coordinates**;
* `ImportRun.Shaping` — the form of the layout, before pruning and after.

Main results:

* `ImportRun.isClosed_paintedAt` — the polygons of a line are closed;
* `import_shaping` — **the form of every layout**.
-/

set_option relaxedAutoImplicit false
set_option autoImplicit false

namespace Artwork

open LayerBuilder (Call)

/-- A union of contours that gives **no undefined coordinate**. -/
def ContourUnion.Defined (union : ContourUnion Float) : Prop :=
  ∀ contours rule, ∀ shape ∈ union contours rule, ∀ contour ∈ shape, ∀ p ∈ contour,
    p.x.isNaN = false ∧ p.y.isNaN = false

theorem ContourUnion.Defined.reflexive {union : ContourUnion Float} (h : union.Defined) :
    union.Reflexive := by
  intro contours rule shape hshape contour hcontour p hp
  obtain ⟨hx, hy⟩ := h contours rule shape hshape contour hcontour p hp
  have heq : (p == p) = (p.x == p.x && p.y == p.y) := rfl
  rw [heq, beq_self_of_isNaN hx, beq_self_of_isNaN hy]
  rfl

namespace ImportRun

variable {r : ImportRun}

/-- What the builder has put together before it prunes. -/
def assembled (r : ImportRun) : Layout :=
  (r.before r.lines.length).layers.assembled

theorem layout_eq_prune (r : ImportRun) : r.layout = r.assembled.prune := by
  rw [assembled, layers_before, layout_eq, LayerBuilder.finish_eq_prune]

/-- All polygons that a line paints are shapes of the union. -/
theorem isUnited_paintedAt (i : Nat) : (r.paintedAt i).IsUnited r.union := by
  unfold paintedAt
  split
  · unfold Context.linePainted
    split
    · unfold Context.painted
      split
      · exact Batch.isUnited_empty
      · dsimp only
        split
        · exact Batch.isUnited_empty
        · exact PendingPath.isUnited_paint _ _ _ _
    · exact Batch.isUnited_empty
  · exact Batch.isUnited_empty

/-- Whatever a line paints, **its polygons are closed**. -/
theorem isClosed_paintedAt (hunion : r.union.Defined) (i : Nat) : (r.paintedAt i).IsClosed :=
  (isUnited_paintedAt i).isClosed hunion.reflexive

theorem isClosed_entriesAt (hunion : r.union.Defined) (i : Nat) :
    ∀ e ∈ r.clearAt i ++ r.solidAt i, e.polygon.IsClosed := by
  intro e he
  have hmem : e.polygon ∈ (r.clearAt i ++ r.solidAt i).map Entry.polygon := List.mem_map_of_mem he
  rw [map_polygon_entriesAt] at hmem
  exact isClosed_paintedAt hunion i e.polygon hmem

/-- The form of a layout, which pruning has left as it was. -/
structure Shaping (r : ImportRun) (layout : Layout) : Prop where
  wellShaped : layout.WellShaped
  /-- The layout is what the builder has put together, pruned, -/
  eq_prune : layout = r.assembled.prune
  /-- and there was nothing to prune. -/
  prune_eq : r.assembled.prune = r.assembled
  /-- What is counted as clear is the clear layer, all of it. -/
  clearEntries_eq : ∀ s ∈ layout.summary.layers,
    s.clearEntries = if s.number = clearLayer then s.entries else 0

theorem shaping_layout (hunion : r.union.Defined) : r.Shaping r.layout := by
  have hpainted : ∀ e ∈ (r.callsBefore r.lines.length).flatMap Call.painted,
      e.polygon.IsClosed := by
    intro e he
    rw [flatMap_painted_callsBefore] at he
    obtain ⟨i, -, hmem⟩ := List.mem_flatMap.1 he
    exact isClosed_entriesAt hunion i e (List.mem_append_right _ hmem)
  have hcleared : ∀ e ∈ (r.callsBefore r.lines.length).flatMap Call.cleared,
      e.polygon.IsClosed := by
    intro e he
    rw [flatMap_cleared_callsBefore] at he
    obtain ⟨i, -, hmem⟩ := List.mem_flatMap.1 he
    exact isClosed_entriesAt hunion i e (List.mem_append_left _ hmem)
  have hshaped : r.layout.WellShaped := by
    rw [layout_eq]
    exact LayerBuilder.wellShaped_finish_run hpainted hcleared
  exact
    { wellShaped := hshaped
      eq_prune := r.layout_eq_prune
      prune_eq := (r.wellFormed_before _).filled_assembled.prune_eq
      clearEntries_eq := hshaped.clearEntries_eq }

end ImportRun

/-- **The form of every layout.**  Options that can be used give a layout for every text; and every
layout, however often the caller was asked whether to stop, is of the same form. -/
theorem import_shaping (union : ContourUnion Float) (hunion : union.Defined)
    (options : ImportOptions) (hsteps : options.curveSteps ≠ 0) (text : List Char) :
    (∃ layout, (importWith union options (fun _ => false) text).1 = .ok layout) ∧
      ∀ abort layout, (importWith union options abort text).1 = .ok layout →
        ImportRun.Shaping ⟨union, options, lines text⟩ layout := by
  refine ⟨⟨_, importWith_never union hsteps text⟩, fun abort layout hlayout => ?_⟩
  rw [eq_layout_of_importWith_eq_ok hsteps hlayout]
  exact ImportRun.shaping_layout hunion

/-- Contours as shapes of their own, without those that are undefined somewhere. -/
def definedShapes : ContourUnion Float :=
  fun contours _ => (contours.filter fun contour =>
    contour.all fun p => !p.x.isNaN && !p.y.isNaN).map ([·])

theorem defined_definedShapes : definedShapes.Defined := by
  intro contours rule shape hshape contour hcontour p hp
  obtain ⟨contour', hmem, rfl⟩ := List.mem_map.1 hshape
  rw [List.mem_singleton.1 hcontour] at hp
  have hdefined := List.all_eq_true.1 (List.mem_filter.1 hmem).2 p hp
  simpa using hdefined

theorem import_shaping_drilledTriangle :
    definedShapes.Defined ∧ ({} : ImportOptions).curveSteps ≠ 0 ∧
      ∃ layout, (importWith definedShapes {} (fun _ => false) drilledTriangle).1 = .ok layout ∧
        (layout.summary.layers.map fun s => (s.number, s.entries, s.clearEntries)) =
          [(0, 1, 1), (1, 1, 0)] ∧
        ImportRun.Shaping ⟨definedShapes, {}, lines drilledTriangle⟩ layout := by
  have hsteps : ({} : ImportOptions).curveSteps ≠ 0 := by decide
  obtain ⟨-, hshaping⟩ :=
    import_shaping definedShapes defined_definedShapes {} hsteps drilledTriangle
  have hlayout := importWith_never definedShapes hsteps drilledTriangle
  exact ⟨defined_definedShapes, hsteps, _, hlayout, by decide +kernel, hshaping _ _ hlayout⟩

end Artwork
