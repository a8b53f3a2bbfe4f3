import Artwork.Proofs.Layer.Calls

/-!
**What every call keeps.**

The finished layers are numbered from one without a gap, the layer under construction has the number
after them, no aperture is empty, and every name that is remembered for a width is the name of an
aperture.  All of this holds at the start and after every call, so that the stores of the builder
can be read like one layout.

Main definitions:

* `LayerBuilder.WellFormed` — **the invariant**;
* `LayerBuilder.assembled` — the layers as the builder puts them together at the end.

Main results:

* `LayerBuilder.WellFormed.run` — it holds along every run;
* `LayerBuilder.WellFormed.rollOver_eq` — completing a layer, by whether it is empty;
* `LayerBuilder.WellFormed.finish_eq_assembled` — **nothing is pruned** in the end;
* `LayerBuilder.get?_finish_of_ne`, `LayerBuilder.get?_finish_clearLayer` — the layers
  of the finished layout.
-/

set_option relaxedAutoImplicit false
set_option autoImplicit false

namespace Artwork.LayerBuilder

/-- What holds of the stores **between two calls**. -/
structure WellFormed (b : LayerBuilder) : Prop where
  one_le_nextLayer : 1 ≤ b.nextLayer
  /-- The finished layers are those before the one under construction. -/
  isSome_frozen_iff : ∀ n, (b.frozen.get? n).isSome = true ↔ 1 ≤ n ∧ n < b.nextLayer
  filled_frozen : ∀ n layer, b.frozen.get? n = some layer → layer.Filled ∧ layer.isEmpty = false
  filled_current : b.current.Filled
  /-- What is remembered for a width names an aperture. -/
  isSome_current : ∀ e ∈ b.widthIds, (b.current.get? e.2).isSome = true

theorem wellFormed_new (startId : UInt32) : (new startId).WellFormed where
  one_le_nextLayer := Int.le_refl 1
  isSome_frozen_iff n := by
    simp only [new, Table.get?_empty, Option.isSome_none, Bool.false_eq_true, false_iff]
    omega
  filled_frozen n layer h := by cases h
  filled_current := Layer.filled_empty
  isSome_current e he := by cases he

namespace WellFormed

variable {b : LayerBuilder}

theorem frozen_of_le (h : b.WellFormed) {n : Int} (hn : b.nextLayer ≤ n) :
    b.frozen.get? n = none := by
  rw [← Option.not_isSome_iff_eq_none, h.isSome_frozen_iff]
  omega

theorem frozen_clearLayer (h : b.WellFormed) : b.frozen.get? clearLayer = none := by
  rw [← Option.not_isSome_iff_eq_none, h.isSome_frozen_iff, clearLayer]
  omega

/-- Completing a layer: an **empty one takes no number**. -/
theorem rollOver_eq (h : b.WellFormed) :
    b.rollOver =
      if b.current.isEmpty then
        { b with rolloverPending := false, current := .empty, widthIds := [] }
      else
        { b with
          rolloverPending := false
          current := .empty
          widthIds := []
          frozen := b.frozen.insert b.nextLayer b.current
          nextLayer := b.nextLayer + 1 } := by
  rw [rollOver, h.filled_current.all_isEmpty]

theorem observe (h : b.WellFormed) (color : Color Float) : (b.observe color).WellFormed :=
  ⟨h.one_le_nextLayer, h.isSome_frozen_iff, h.filled_frozen, h.filled_current, h.isSome_current⟩

theorem addClear (h : b.WellFormed) (batch : List (Polygon Float)) :
    (b.addClear batch).WellFormed :=
  ⟨h.one_le_nextLayer, h.isSome_frozen_iff, h.filled_frozen, h.filled_current, h.isSome_current⟩

theorem rollOver (h : b.WellFormed) : b.rollOver.WellFormed := by
  rw [h.rollOver_eq]
  split
  · exact ⟨h.one_le_nextLayer, h.isSome_frozen_iff, h.filled_frozen, Layer.filled_empty, nofun⟩
  · next hne =>
      refine ⟨?_, ?_, ?_, Layer.filled_empty, nofun⟩
      · have hpos := h.one_le_nextLayer
        dsimp only
        omega
      · -- the layer that is completed gets the next number, so that there is no gap
        intro n
        have hpos := h.one_le_nextLayer
        dsimp only
        by_cases hn : b.nextLayer = n
        · subst hn
          rw [Table.get?_insert_self]
          simp only [Option.isSome_some, true_iff]
          omega
        · rw [Table.get?_insert_of_ne _ _ hn, h.isSome_frozen_iff]
          omega
      · intro n layer hlayer
        by_cases hn : b.nextLayer = n
        · subst hn
          rw [Table.get?_insert_self, Option.some.injEq] at hlayer
          subst hlayer
          exact ⟨h.filled_current, by simpa using hne⟩
        · rw [Table.get?_insert_of_ne _ _ hn] at hlayer
          exact h.filled_frozen n layer hlayer

theorem readyFor (h : b.WellFormed) (color : Color Float) : (b.readyFor color).WellFormed := by
  unfold LayerBuilder.readyFor
  dsimp only
  split
  · exact (h.observe color).rollOver
  · exact h.observe color

/-- A width that is known has an aperture. -/
theorem isSome_of_not_isNew (h : b.WellFormed) {size : Float} (hnew : b.isNew size = false) :
    (b.current.get? (b.nameFor size)).isSome = true := by
  have hmem := List.lookup_eq_some_iff.1 (lookup_of_not_isNew hnew)
  obtain ⟨before, after, heq, -⟩ := hmem
  exact h.isSome_current (widthKey size, b.nameFor size) (by rw [heq]; simp)

/-- The aperture that entries are put into is there afterwards and is not empty. -/
theorem exists_get?_put (h : b.WellFormed) (size : Float) {entries : List Entry}
    (he : entries ≠ []) :
    ∃ a, (b.put size entries).current.get? (b.nameFor size) = some a ∧ a.isEmpty = false := by
  cases hnew : b.isNew size with
  | true =>
      exact ⟨_, get?_current_put_of_isNew entries hnew, by simpa [Aperture.isEmpty] using he⟩
  | false =>
      obtain ⟨a, ha⟩ := Option.isSome_iff_exists.1 (h.isSome_of_not_isNew hnew)
      refine ⟨a.append entries, ?_, by simp [Aperture.append, Aperture.isEmpty, he]⟩
      rw [get?_current_put_of_not_isNew entries hnew, ha]
      rfl

/-- The layer under construction keeps its apertures filled when entries are put into it. -/
theorem put (h : b.WellFormed) (size : Float) {entries : List Entry} (he : entries ≠ []) :
    (b.put size entries).WellFormed := by
  obtain ⟨a, ha, hne⟩ := h.exists_get?_put size he
  refine ⟨?_, ?_, ?_, ?_, ?_⟩
  · rw [nextLayer_put]
    exact h.one_le_nextLayer
  · rw [nextLayer_put, frozen_put]
    exact h.isSome_frozen_iff
  · rw [frozen_put]
    exact h.filled_frozen
  · intro id a' ha'
    by_cases hid : b.nameFor size = id
    · subst hid
      rw [ha, Option.some.injEq] at ha'
      rw [← ha', hne]
    · rw [get?_current_put_of_ne b entries hid] at ha'
      exact h.filled_current id a' ha'
  · intro e hmem
    by_cases hid : b.nameFor size = e.2
    · rw [← hid, ha]
      rfl
    · rw [get?_current_put_of_ne b entries hid]
      refine h.isSome_current e ?_
      -- the only name that may have been added is the one the entries went to
      cases hnew : b.isNew size with
      | true =>
          rw [put_of_isNew entries hnew] at hmem
          rcases List.mem_cons.1 hmem with rfl | hmem
          · exact absurd rfl hid
          · exact hmem
      | false =>
          rw [put_of_not_isNew entries hnew] at hmem
          exact hmem

/-- One call keeps the invariant. -/
theorem call (h : b.WellFormed) (c : Call) : (b.call c).WellFormed := by
  cases c with
  | observe color => exact h.observe color
  | classify batch width isClear color =>
      simp only [LayerBuilder.call]
      cases hbatch : batch.isEmpty with
      | true => rwa [classify_of_isEmpty hbatch]
      | false =>
          cases isClear with
          | true =>
              rw [classify_clear hbatch]
              exact h.addClear batch
          | false =>
              rw [classify_solid hbatch]
              refine (h.readyFor color).put _ ?_
              simpa using hbatch

/-- The invariant holds **along every run**. -/
theorem run (h : b.WellFormed) (calls : List Call) : (b.run calls).WellFormed := by
  induction calls generalizing b with
  | nil => exact h
  | cons c calls ih => exact ih (h.call c)

end WellFormed

theorem wellFormed_run_new (startId : UInt32) (calls : List Call) :
    ((new startId).run calls).WellFormed :=
  (wellFormed_new startId).run calls

/-! ### The finished layout -/

theorem rollOver_clear (b : LayerBuilder) : b.rollOver.clear = b.clear := by
  unfold rollOver
  dsimp only
  split <;> rfl

/-- The completed layers and the clear one, before anything is pruned. -/
def assembled (b : LayerBuilder) : Layout :=
  let b := b.rollOver
  if b.clear.isEmpty then b.frozen
  else b.frozen.insert clearLayer (Table.empty.insert clearId b.clear)

theorem finish_eq_prune (b : LayerBuilder) : b.finish = b.assembled.prune := rfl

theorem get?_assembled_of_ne (b : LayerBuilder) {n : Int} (hn : n ≠ clearLayer) :
    b.assembled.get? n = b.rollOver.frozen.get? n := by
  unfold assembled
  dsimp only
  split
  · rfl
  · rw [Table.get?_insert_of_ne _ _ (Ne.symm hn)]

namespace WellFormed

variable {b : LayerBuilder}

theorem get?_assembled_clearLayer (h : b.WellFormed) :
    b.assembled.get? clearLayer =
      if b.clear.isEmpty then none else some (Table.empty.insert clearId b.clear) := by
  unfold assembled
  dsimp only
  rw [rollOver_clear]
  split
  · exact h.rollOver.frozen_clearLayer
  · rw [Table.get?_insert_self]

/-- What is assembled has no empty layer and no empty aperture. -/
theorem filled_assembled (h : b.WellFormed) : b.assembled.Filled := by
  intro n layer hlayer
  by_cases hn : n = clearLayer
  · subst hn
    rw [h.get?_assembled_clearLayer] at hlayer
    split at hlayer
    · cases hlayer
    · next hne =>
        cases hlayer
        refine ⟨?_, rfl⟩
        intro id a ha
        by_cases hid : clearId = id
        · rw [← hid, Table.get?_insert_self, Option.some.injEq] at ha
          rw [← ha]
          simpa using hne
        · rw [Table.get?_insert_of_ne _ _ hid] at ha
          cases ha
  · rw [get?_assembled_of_ne b hn] at hlayer
    exact h.rollOver.filled_frozen n layer hlayer

/-- Nothing **is pruned**. -/
theorem finish_eq_assembled (h : b.WellFormed) : b.finish = b.assembled := by
  rw [finish_eq_prune, h.filled_assembled.prune_eq]

end WellFormed

/-- Every layer but the clear one is a **completed layer**. -/
theorem get?_finish_of_ne {b : LayerBuilder} (h : b.WellFormed) {n : Int} (hn : n ≠ clearLayer) :
    b.finish.get? n = b.rollOver.frozen.get? n := by
  rw [h.finish_eq_assembled, get?_assembled_of_ne b hn]

/-- The clear layer holds the **clear aperture**, if there is anything in it. -/
theorem get?_finish_clearLayer {b : LayerBuilder} (h : b.WellFormed) :
    b.finish.get? clearLayer =
      if b.clear.isEmpty then none else some (Table.empty.insert clearId b.clear) := by
  rw [h.finish_eq_assembled, h.get?_assembled_clearLayer]

end Artwork.LayerBuilder
