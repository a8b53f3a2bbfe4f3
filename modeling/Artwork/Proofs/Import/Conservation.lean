import Artwork.Proofs.Import.Layering
import Artwork.Proofs.Layer.Conservation

/-!
**Every painted polygon is in the layout once.**

The polygons of an import come from the painting operators alone.  Fillings in exact white are the
clear layer, and everything else is in the ordinary layers, in the order of painting within every
aperture. For this the names must not run out: an aperture beyond the cycle of names would take the
place of another.

Main definitions:

* `ImportRun.minted` — how many names an import mints;
* `ImportRun.Conserving` — **where every polygon is**.

Main results:

* `import_conserving` — **no polygon is lost, duplicated or misplaced**.
-/

set_option relaxedAutoImplicit false
set_option autoImplicit false

namespace Artwork

open LayerBuilder (Call)

namespace ImportRun

/-- How many names of apertures are minted. -/
def minted (r : ImportRun) : Nat :=
  r.deposits.countP Deposit.isNew

/-- The clear entries of all lines, in the order of painting. -/
def cleared (r : ImportRun) : List Entry :=
  (List.range r.lines.length).flatMap r.clearAt

/-- All polygons that are painted, line by line, the fillings of a line before its outlines. -/
def polygons (r : ImportRun) : List (Polygon Float) :=
  (List.range r.lines.length).flatMap fun i => (r.paintedAt i).fill ++ (r.paintedAt i).stroke

variable (r : ImportRun)

theorem flatMap_cleared_callsBefore (n : Nat) :
    (r.callsBefore n).flatMap Call.cleared = (List.range n).flatMap r.clearAt := by
  rw [callsBefore, List.flatMap_assoc]
  exact List.flatMap_congr fun i _ => r.flatMap_cleared_callsAt i

theorem flatMap_painted_callsBefore (n : Nat) :
    (r.callsBefore n).flatMap Call.painted = (List.range n).flatMap r.solidAt := by
  rw [callsBefore, List.flatMap_assoc]
  exact List.flatMap_congr fun i _ => r.flatMap_painted_callsAt i

/-- The entries of a line are its polygons. -/
theorem map_polygon_entriesAt (i : Nat) :
    (r.clearAt i ++ r.solidAt i).map Entry.polygon =
      (r.paintedAt i).fill ++ (r.paintedAt i).stroke := by
  have hsolid : ∀ ps : List (Polygon Float), (ps.map Entry.ofSolid).map Entry.polygon = ps := by
    intro ps
    rw [List.map_map]
    exact List.map_id ps
  have hclear : ∀ ps : List (Polygon Float), (ps.map Entry.clear).map Entry.polygon = ps := by
    intro ps
    rw [List.map_map]
    exact List.map_id ps
  unfold clearAt solidAt
  split
  · rw [List.nil_append, List.map_append, hclear, hsolid]
  · rw [List.nil_append, List.map_append, hsolid, hsolid]

/-- **Where every polygon is.** -/
structure Conserving (r : ImportRun) (layout : Layout) : Prop where
  /-- The clear layer is the clear aperture, with the clear entries in the order of painting. -/
  get?_clearLayer : layout.get? clearLayer =
    if r.cleared.isEmpty then none else some (Table.empty.insert clearId ⟨0, r.cleared⟩)
  /-- The deposits of a line are its solid entries, in order. -/
  flatMap_entries : ∀ i, (r.depositsAt i).flatMap Deposit.entries = r.solidAt i
  /-- They are in layers from one on, -/
  one_le_layer : ∀ d ∈ r.deposits, 1 ≤ d.layer
  /-- whose apertures hold what was deposited in their places, in the order of painting. -/
  geometry_eq : ∀ n, n ≠ clearLayer → ∀ id, layout.geometry n id = gathered r.deposits n id
  /-- The polygons of the layout are those that were painted, each exactly once. -/
  perm_polygons :
    ((layout.apertures.flatMap Aperture.geometry).map Entry.polygon).Perm r.polygons

theorem conserving_layout {r : ImportRun} (hminted : r.minted ≤ nameCount) :
    r.Conserving r.layout := by
  rw [minted, deposits_eq] at hminted
  refine ⟨?_, r.flatMap_entries_depositsAt, ?_, ?_, ?_⟩
  · rw [layout_eq, LayerBuilder.get?_finish_run_clearLayer, flatMap_cleared_callsBefore]
    rfl
  · intro d hd
    rw [deposits_eq] at hd
    exact (LayerBuilder.layer_mem_deposits (LayerBuilder.wellFormed_new _) hd).1
  · intro n hn id
    rw [layout_eq, deposits_eq, LayerBuilder.geometry_finish_run hminted hn]
  · have hentries := LayerBuilder.perm_entries_finish_run hminted
    rw [flatMap_cleared_callsBefore, flatMap_painted_callsBefore] at hentries
    have hlines := hentries.trans (List.flatMap_append_perm ..)
    rw [layout_eq, polygons]
    refine (hlines.map Entry.polygon).trans (List.Perm.of_eq ?_)
    rw [List.map_flatMap]
    exact List.flatMap_congr fun i _ => r.map_polygon_entriesAt i

end ImportRun

/-- **No polygon is lost, duplicated or misplaced** by an import that is not stopped, as long as it
mints no more names than there are. -/
theorem import_conserving (union : ContourUnion Float) (options : ImportOptions)
    (hsteps : options.curveSteps ≠ 0) (text : List Char)
    (hminted : ImportRun.minted ⟨union, options, lines text⟩ ≤ 2 ^ 32 - 1) :
    ∃ layout, (importWith union options (fun _ => false) text).1 = .ok layout ∧
      ImportRun.Conserving ⟨union, options, lines text⟩ layout :=
  ⟨_, importWith_never union hsteps text, ImportRun.conserving_layout hminted⟩

/-- A triangle, and a smaller one in white on top of it. -/
def drilledTriangle : List Char :=
  "0 0 m\n10 0 l\n10 10 l\nf\n1 1 1 rg\n7 1 m\n9 1 l\n9 3 l\nf".toList

theorem import_conserving_drilledTriangle :
    ({} : ImportOptions).curveSteps ≠ 0 ∧
      ImportRun.minted ⟨separateShapes, {}, lines drilledTriangle⟩ ≤ 2 ^ 32 - 1 ∧
      (ImportRun.cleared ⟨separateShapes, {}, lines drilledTriangle⟩).length = 1 ∧
      (ImportRun.polygons ⟨separateShapes, {}, lines drilledTriangle⟩).length = 2 ∧
      ∃ layout, (importWith separateShapes {} (fun _ => false) drilledTriangle).1 = .ok layout ∧
        ImportRun.Conserving ⟨separateShapes, {}, lines drilledTriangle⟩ layout :=
  ⟨by decide, by decide +kernel, by decide +kernel, by decide +kernel,
    import_conserving separateShapes {} (by decide) drilledTriangle (by decide +kernel)⟩

end Artwork
