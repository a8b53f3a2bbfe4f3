import Artwork.Proofs.Layer.Calls
import Artwork.Drill
import Artwork.Summary

/-!
**What pruning keeps.**

Pruning is a filter within a filter: the empty apertures are dropped first, and a layer is looked at
after that.  So a layer of empty apertures is dropped with them, and a layer is kept exactly if it holds
an entry.  What a layer holds is the same before and after, where a layer that is missing holds nothing;
drill holes and counts are read off that and do not change.

Main definitions:

* `Layer.prune`, `Layout.entriesIn` — a layer without its empty apertures, and what a layer holds;
* `Layout.Pruned` — **what is left of a layout**, and what is read off it.

Main results:

* `Layer.entries_prune`, `Layout.entriesIn_prune` — no entry is lost;
* `Layer.isEmpty_prune` — a layer is dropped if it holds nothing;
* `Layout.filled_prune` — nothing empty is left;
* `Layout.pruned_prune` — what pruning does to **any layout**.
-/

set_option relaxedAutoImplicit false
set_option autoImplicit false

namespace Artwork

/-- Without the members that hold nothing, what the others hold is all that is held. -/
theorem flatMap_filter_not_isEmpty {α β : Type} (f : α → List β) (as : List α) :
    (as.filter fun a => !(f a).isEmpty).flatMap f = as.flatMap f := by
  have hkept : (as.filter fun a => !(f a).isEmpty).map f =
      (as.map f).filter fun bs => !bs.isEmpty := by
    rw [List.filter_map]
    rfl
  rw [List.flatMap_def, List.flatMap_def, hkept, List.flatten_filter_not_isEmpty]

/-! ### Layers -/

namespace Layer

/-- The layer without its empty apertures. -/
def prune (layer : Layer) : Layer :=
  layer.filter (!·.isEmpty)

theorem get?_prune_eq_some_iff {layer : Layer} {id : String} {a : Aperture} :
    layer.prune.get? id = some a ↔ layer.get? id = some a ∧ a.geometry ≠ [] := by
  rw [prune, Table.get?_filter, Option.filter_eq_some_iff, Aperture.isEmpty, Bool.not_eq_true',
    List.isEmpty_eq_false_iff]

theorem filled_prune (layer : Layer) : layer.prune.Filled := by
  intro id a ha
  exact List.isEmpty_eq_false_iff.2 (get?_prune_eq_some_iff.1 ha).2

/-- Without its empty apertures a layer **holds the same entries**. -/
theorem entries_prune (layer : Layer) : layer.prune.entries = layer.entries := by
  rw [entries, prune, Table.values_filter]
  exact flatMap_filter_not_isEmpty Aperture.geometry layer.values

/-- A layer loses all its apertures exactly if it **holds no entry**. -/
theorem isEmpty_prune (layer : Layer) : layer.prune.isEmpty = layer.entries.isEmpty := by
  rw [prune, Table.isEmpty_filter, Bool.eq_iff_iff, List.isEmpty_iff, List.isEmpty_iff, entries,
    List.filter_eq_nil_iff, List.flatMap_eq_nil_iff]
  simp [Aperture.isEmpty]

end Layer

/-! ### Layouts -/

namespace Layout

theorem get?_prune (layout : Layout) (n : Int) :
    layout.prune.get? n = ((layout.get? n).map Layer.prune).filter (!·.isEmpty) := by
  rw [prune, Table.get?_filter, Table.get?_map]
  rfl

theorem get?_prune_eq_some_iff {layout : Layout} {n : Int} {layer : Layer} :
    layout.prune.get? n = some layer ↔
      ∃ before, layout.get? n = some before ∧ before.prune = layer ∧ before.entries ≠ [] := by
  rw [get?_prune, Option.filter_eq_some_iff, Option.map_eq_some_iff]
  constructor
  · rintro ⟨⟨before, hbefore, rfl⟩, hne⟩
    rw [Layer.isEmpty_prune] at hne
    exact ⟨before, hbefore, rfl, by simpa using hne⟩
  · rintro ⟨before, hbefore, rfl, hne⟩
    rw [Layer.isEmpty_prune]
    exact ⟨⟨before, hbefore, rfl⟩, by simpa using hne⟩

/-- Nothing empty **is left**. -/
theorem filled_prune (layout : Layout) : layout.prune.Filled := by
  intro n layer hlayer
  obtain ⟨before, -, rfl, hne⟩ := get?_prune_eq_some_iff.1 hlayer
  refine ⟨before.filled_prune, ?_⟩
  rw [Layer.isEmpty_prune]
  exact List.isEmpty_eq_false_iff.2 hne

/-- What a layer holds; one that is missing holds nothing. -/
def entriesIn (layout : Layout) (n : Int) : List Entry :=
  ((layout.get? n).map Layer.entries).getD []

/-- **No entry is lost**, whatever the layer. -/
theorem entriesIn_prune (layout : Layout) (n : Int) :
    layout.prune.entriesIn n = layout.entriesIn n := by
  rw [entriesIn, entriesIn, get?_prune]
  cases layout.get? n with
  | none => rfl
  | some layer =>
      rw [Option.map_some, Option.map_some, Option.filter_some, Layer.isEmpty_prune]
      cases hempty : layer.entries.isEmpty with
      | true => exact (List.isEmpty_iff.1 hempty).symm
      | false => exact layer.entries_prune

/-- The drill holes are read off what the clear layer holds. -/
theorem drills_eq (layout : Layout) :
    layout.drills =
      ((layout.entriesIn clearLayer).filter Entry.isClear).filterMap (·.polygon.drill?) := by
  unfold drills entriesIn
  cases layout.get? clearLayer with
  | none => rfl
  | some layer => rfl

/-- The layers that are left are those that **hold an entry**, without their empty apertures. -/
theorem entries_prune (layout : Layout) :
    layout.prune.entries =
      (layout.entries.filter fun e => !e.2.entries.isEmpty).map fun e => (e.1, e.2.prune) := by
  have hkept : ∀ e ∈ layout.entries, (!e.2.prune.isEmpty) = !e.2.entries.isEmpty := by
    intro e _
    rw [Layer.isEmpty_prune]
  rw [← List.filter_congr hkept]
  exact List.filter_map

/-- All that the layers hold, one after the other, is the same as before. -/
theorem flatMap_entries_prune (layout : Layout) :
    layout.prune.entries.flatMap (fun e => e.2.entries) =
      layout.entries.flatMap fun e => e.2.entries := by
  have hlayer : ∀ e : Int × Layer, e.2.prune.entries = e.2.entries := fun e => e.2.entries_prune
  rw [entries_prune, List.flatMap_map]
  simp only [hlayer]
  exact flatMap_filter_not_isEmpty (fun e : Int × Layer => e.2.entries) layout.entries

end Layout

/-! ### Counts -/

/-- The number of a layer with how many entries it holds, and how many of them are clear. -/
def LayerSummary.contents (s : LayerSummary) : Int × Nat × Nat :=
  (s.number, s.entries, s.clearEntries)

theorem LayerSummary.contents_of_prune (number : Int) (layer : Layer) :
    (LayerSummary.of number layer.prune).contents = (LayerSummary.of number layer).contents := by
  unfold contents of
  rw [Layer.entries_prune]

namespace Layout

/-- The total is the number of entries in all layers. -/
theorem entries_summary (layout : Layout) :
    layout.summary.entries = (layout.entries.flatMap fun e => e.2.entries).length := by
  unfold summary Summary.entries
  rw [List.foldl_map, List.length_flatMap, List.sum_eq_foldl, List.foldl_map]
  rfl

/-- The layers that are left are counted as before, and the others had no entry. -/
theorem map_contents_prune (layout : Layout) :
    layout.prune.summary.layers.map LayerSummary.contents =
      (layout.summary.layers.filter (0 < ·.entries)).map LayerSummary.contents := by
  have hkept : ∀ e ∈ layout.entries, (!e.2.entries.isEmpty) = decide (0 < e.2.entries.length) := by
    intro e _
    cases e.2.entries <;> simp
  unfold summary
  rw [entries_prune, List.filter_congr hkept, List.filter_map, List.map_map, List.map_map,
    List.map_map]
  exact List.map_congr_left fun e _ => LayerSummary.contents_of_prune e.1 e.2

/-- **What is left of a layout**, and what is read off it. -/
structure Pruned (layout left : Layout) : Prop where
  /-- An aperture is there if it was there with a polygon, and it is the same, -/
  aperture?_eq_some_iff : ∀ n id a,
    left.aperture? n id = some a ↔ layout.aperture? n id = some a ∧ a.geometry ≠ []
  /-- and a layer is there if it had such an aperture. -/
  isSome_get?_iff : ∀ n, (left.get? n).isSome = true ↔
    ∃ id a, layout.aperture? n id = some a ∧ a.geometry ≠ []
  /-- Nothing is left to prune. -/
  prune_eq : left.prune = left
  /-- The drill holes are the same, and so is the number of entries. -/
  drills_eq : left.drills = layout.drills
  entries_eq : left.summary.entries = layout.summary.entries
  /-- The layers that are there are those that were counted with an entry, in their order, with as many
  entries and as many clear ones as before. -/
  map_contents_eq : left.summary.layers.map LayerSummary.contents =
    (layout.summary.layers.filter (0 < ·.entries)).map LayerSummary.contents

theorem aperture?_prune_eq_some_iff {layout : Layout} {n : Int} {id : String} {a : Aperture} :
    layout.prune.aperture? n id = some a ↔ layout.aperture? n id = some a ∧ a.geometry ≠ [] := by
  unfold aperture?
  rw [Option.bind_eq_some_iff, Option.bind_eq_some_iff]
  constructor
  · rintro ⟨layer, hlayer, ha⟩
    obtain ⟨before, hbefore, rfl, -⟩ := get?_prune_eq_some_iff.1 hlayer
    obtain ⟨ha, hne⟩ := Layer.get?_prune_eq_some_iff.1 ha
    exact ⟨⟨before, hbefore, ha⟩, hne⟩
  · rintro ⟨⟨layer, hlayer, ha⟩, hne⟩
    have hleft := Layer.get?_prune_eq_some_iff.2 ⟨ha, hne⟩
    -- the aperture is not empty, and so neither is its layer
    have hentries : layer.entries ≠ [] := by
      intro hnil
      have hempty := layer.isEmpty_prune
      rw [hnil, List.isEmpty_nil] at hempty
      rw [Table.isEmpty_iff.1 hempty id] at hleft
      cases hleft
    exact ⟨layer.prune, get?_prune_eq_some_iff.2 ⟨layer, hlayer, rfl, hentries⟩, hleft⟩

/-- Pruning **keeps exactly what is not empty**, in any layout. -/
theorem pruned_prune (layout : Layout) : layout.Pruned layout.prune where
  aperture?_eq_some_iff _ _ _ := aperture?_prune_eq_some_iff
  isSome_get?_iff n := by
    constructor
    · intro hsome
      obtain ⟨layer, hlayer⟩ := Option.isSome_iff_exists.1 hsome
      -- the layer is not empty, so it has an aperture, which has been there before
      obtain ⟨id, a, ha⟩ := Table.exists_get?_of_not_isEmpty (layout.filled_prune n layer hlayer).2
      refine ⟨id, a, aperture?_prune_eq_some_iff.1 ?_⟩
      rw [aperture?, hlayer]
      exact ha
    · rintro ⟨id, a, ha⟩
      have hleft := aperture?_prune_eq_some_iff.2 ha
      obtain ⟨layer, hlayer, -⟩ := Option.bind_eq_some_iff.1 hleft
      exact Option.isSome_iff_exists.2 ⟨layer, hlayer⟩
  prune_eq := layout.filled_prune.prune_eq
  drills_eq := by rw [drills_eq, drills_eq, entriesIn_prune]
  entries_eq := by rw [entries_summary, entries_summary, flatMap_entries_prune]
  map_contents_eq := layout.map_contents_prune

end Layout

end Artwork
