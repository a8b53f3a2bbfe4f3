import Artwork.Proofs.Layer.Rollover
import Artwork.Proofs.Outline.Rings
import Artwork.Summary

/-!
**What a layout looks like.**

A layout has no empty layer and no empty aperture, although apertures are made before there is
anything to put into them and layers are begun that never receive a polygon.  Cleared copper is in the
layer of this name and nowhere else, and copper is everywhere else, with the outline that a tool
follows.

Main definitions:

* `Layout.WellShaped` — **the form of a layout**.

Main results:

* `LayerBuilder.mem_painted_of_mem_entries` — what is in an ordinary layer was painted;
* `LayerBuilder.wellShaped_finish_run` — every run of the builder ends in a layout of this form;
* `Layout.WellShaped.clearEntries_eq` — what is counted as clear is **the clear layer**.
-/

set_option relaxedAutoImplicit false
set_option autoImplicit false

namespace Artwork

theorem Layer.mem_entries_iff {layer : Layer} {e : Entry} :
    e ∈ layer.entries ↔ ∃ id a, layer.get? id = some a ∧ e ∈ a.geometry := by
  unfold entries
  rw [List.mem_flatMap]
  constructor
  · rintro ⟨a, ha, he⟩
    obtain ⟨id, hid⟩ := Table.mem_values_iff.1 ha
    exact ⟨id, a, hid, he⟩
  · rintro ⟨id, a, hid, he⟩
    exact ⟨a, Table.mem_values_iff.2 ⟨id, hid⟩, he⟩

theorem Layer.entries_insert_empty (id : String) (a : Aperture) :
    Layer.entries (Table.empty.insert id a) = a.geometry :=
  List.append_nil _

/-- An entry of an aperture was there before, or it was deposited. -/
theorem Deposit.exists_mem_of_foldl_addTo {ds : List Deposit} {held : Option Aperture}
    {a : Aperture} (h : ds.foldl addTo held = some a) {e : Entry} (he : e ∈ a.geometry) :
    (∃ before, held = some before ∧ e ∈ before.geometry) ∨ ∃ d ∈ ds, e ∈ d.entries := by
  induction ds generalizing held with
  | nil => exact Or.inl ⟨a, h, he⟩
  | cons d ds ih =>
      rcases ih h with ⟨before, hbefore, hmem⟩ | ⟨d', hd', hmem⟩
      · unfold addTo at hbefore
        split at hbefore
        · cases hbefore
          exact Or.inr ⟨d, List.mem_cons_self .., hmem⟩
        · obtain ⟨earlier, hearlier, rfl⟩ := Option.map_eq_some_iff.1 hbefore
          rcases List.mem_append.1 hmem with hmem | hmem
          · exact Or.inl ⟨earlier, hearlier, hmem⟩
          · exact Or.inr ⟨d, List.mem_cons_self .., hmem⟩
      · exact Or.inr ⟨d', List.mem_cons_of_mem _ hd', hmem⟩

/-- **The form of a layout.** -/
structure Layout.WellShaped (layout : Layout) : Prop where
  /-- No layer is empty, and no aperture is. -/
  filled : layout.Filled
  /-- There are no layers below the clear one. -/
  clearLayer_le : ∀ n layer, layout.get? n = some layer → clearLayer ≤ n
  /-- The clear layer is one aperture without width, of clear entries alone. -/
  eq_insert : ∀ layer, layout.get? clearLayer = some layer →
    ∃ entries, layer = Table.empty.insert clearId ⟨0, entries⟩ ∧ ∀ e ∈ entries, e.isClear = true
  /-- All other layers are solid, and followed along the exterior. -/
  eq_ofSolid : ∀ n layer, layout.get? n = some layer → 1 ≤ n →
    ∀ e ∈ layer.entries, ∃ p, e = .solid p p.exterior
  /-- Every ring of every polygon is closed. -/
  isClosed : ∀ n layer, layout.get? n = some layer → ∀ e ∈ layer.entries, e.polygon.IsClosed

namespace Layout.WellShaped

variable {layout : Layout}

/-- A layer is clear as a whole, or not at all. -/
theorem countP_isClear (h : layout.WellShaped) {n : Int} {layer : Layer}
    (hlayer : layout.get? n = some layer) :
    layer.entries.countP Entry.isClear = if n = clearLayer then layer.entries.length else 0 := by
  split
  · next hn =>
      rw [hn] at hlayer
      obtain ⟨entries, rfl, hclear⟩ := h.eq_insert layer hlayer
      rw [Layer.entries_insert_empty]
      exact List.countP_eq_length.2 hclear
  · next hn =>
      have hpos : 1 ≤ n := by
        have hle := h.clearLayer_le n layer hlayer
        rw [clearLayer] at hle hn
        omega
      refine List.countP_eq_zero.2 fun e he hclear => ?_
      obtain ⟨p, rfl⟩ := h.eq_ofSolid n layer hlayer hpos e he
      cases hclear

/-- What is counted as clear is **the clear layer**, all of it. -/
theorem clearEntries_eq (h : layout.WellShaped) :
    ∀ s ∈ layout.summary.layers,
      s.clearEntries = if s.number = clearLayer then s.entries else 0 := by
  intro s hs
  obtain ⟨⟨n, layer⟩, hmem, rfl⟩ := List.mem_map.1 hs
  exact h.countP_isClear (Table.get?_eq_some_iff.2 hmem)

end Layout.WellShaped

namespace LayerBuilder

variable {startId : UInt32} {calls : List Call}

/-- What is found in an ordinary layer **was painted**. -/
theorem mem_painted_of_mem_entries {n : Int} (hn : n ≠ clearLayer) {layer : Layer}
    (hlayer : ((new startId).run calls).finish.get? n = some layer) {e : Entry}
    (he : e ∈ layer.entries) : e ∈ calls.flatMap Call.painted := by
  obtain ⟨id, a, ha, he⟩ := Layer.mem_entries_iff.1 he
  have hstored := aperture?_finish_run startId calls hn id
  rw [Layout.aperture?, hlayer, Option.bind_some, ha, stored] at hstored
  rcases Deposit.exists_mem_of_foldl_addTo hstored.symm he with ⟨_, hnone, _⟩ | ⟨d, hd, hmem⟩
  · cases hnone
  · rw [← flatMap_entries_deposits (new startId)]
    exact List.mem_flatMap.2 ⟨d, (List.mem_filter.1 hd).1, hmem⟩

/-- What is found in the clear layer was cleared. -/
theorem eq_insert_of_clearLayer {layer : Layer}
    (hlayer : ((new startId).run calls).finish.get? clearLayer = some layer) :
    layer = Table.empty.insert clearId ⟨0, calls.flatMap Call.cleared⟩ := by
  rw [get?_finish_clearLayer (wellFormed_run_new startId calls), clear_run] at hlayer
  split at hlayer
  · cases hlayer
  · cases hlayer
    rfl

theorem eq_ofSolid_of_mem_painted {e : Entry} (he : e ∈ calls.flatMap Call.painted) :
    ∃ p, e = .ofSolid p := by
  obtain ⟨c, -, hmem⟩ := List.mem_flatMap.1 he
  unfold Call.painted at hmem
  split at hmem
  · obtain ⟨p, -, rfl⟩ := List.mem_map.1 hmem
    exact ⟨p, rfl⟩
  · cases hmem

theorem isClear_of_mem_cleared {e : Entry} (he : e ∈ calls.flatMap Call.cleared) :
    e.isClear = true := by
  obtain ⟨c, -, hmem⟩ := List.mem_flatMap.1 he
  unfold Call.cleared at hmem
  split at hmem
  · obtain ⟨p, -, rfl⟩ := List.mem_map.1 hmem
    rfl
  · cases hmem

/-- **Every run** of the builder ends in a layout of this form, if closed polygons are given to it. -/
theorem wellShaped_finish_run
    (hpainted : ∀ e ∈ calls.flatMap Call.painted, e.polygon.IsClosed)
    (hcleared : ∀ e ∈ calls.flatMap Call.cleared, e.polygon.IsClosed) :
    ((new startId).run calls).finish.WellShaped where
  filled := by
    rw [(wellFormed_run_new startId calls).finish_eq_assembled]
    exact (wellFormed_run_new startId calls).filled_assembled
  clearLayer_le n layer hlayer := by
    by_cases hn : n = clearLayer
    · exact Int.le_of_eq hn.symm
    · have hwell := wellFormed_run_new startId calls
      rw [get?_finish_of_ne hwell hn] at hlayer
      have hnumber := (hwell.rollOver.isSome_frozen_iff n).1 (by rw [hlayer]; rfl)
      rw [clearLayer]
      omega
  eq_insert layer hlayer :=
    ⟨_, eq_insert_of_clearLayer hlayer, fun e he => isClear_of_mem_cleared he⟩
  eq_ofSolid n layer hlayer hn e he := by
    have hne : n ≠ clearLayer := by
      rw [clearLayer]
      omega
    exact eq_ofSolid_of_mem_painted (mem_painted_of_mem_entries hne hlayer he)
  isClosed n layer hlayer e he := by
    by_cases hn : n = clearLayer
    · subst hn
      rw [eq_insert_of_clearLayer hlayer, Layer.entries_insert_empty] at he
      exact hcleared e he
    · exact hpainted e (mem_painted_of_mem_entries hn hlayer he)

end LayerBuilder

end Artwork
