import Artwork.Proofs.Layer.Conservation

/-!
**A layout only grows.**

The layout of a run is part of the layout of every longer run.  A layer that is complete is never
touched again.  The layer under construction keeps its number, and an aperture keeps its name and
its size and is extended at the end, as long as the names do not run out.

Main definitions:

* `Layout.GrowsInto` — **one layout as the beginning of another**.

Main results:

* `LayerBuilder.WellFormed.get?_frozen_run` — complete layers stay as they are;
* `LayerBuilder.aperture?_run_append` — **an aperture keeps its size and what it holds**;
* `LayerBuilder.growsInto_finish_run` — the finished layout of a run and of a longer one.
-/

set_option relaxedAutoImplicit false
set_option autoImplicit false

namespace Artwork

/-- One layout is the **beginning of another**. -/
structure Layout.GrowsInto (small large : Layout) : Prop where
  /-- Every layer and every aperture is still there, with the same size and with what it held at the
  beginning. -/
  exists_aperture : ∀ n layer, small.get? n = some layer → ∃ layer', large.get? n = some layer' ∧
    ∀ id a, layer.get? id = some a →
      ∃ a', layer'.get? id = some a' ∧ a'.size = a.size ∧ a.geometry <+: a'.geometry
  /-- A layer stays as it is, unless it is the clear one or the last. -/
  get?_eq : ∀ n m, n ≠ clearLayer → n < m → (small.get? m).isSome = true →
    ∀ layer, small.get? n = some layer → large.get? n = some layer

namespace LayerBuilder

/-! ### Complete layers -/

namespace WellFormed

variable {b : LayerBuilder}

theorem get?_frozen_rollOver (h : b.WellFormed) {n : Int} (hn : n < b.nextLayer) :
    b.rollOver.frozen.get? n = b.frozen.get? n := by
  rw [h.rollOver_eq]
  split
  · rfl
  · exact Table.get?_insert_of_ne _ _ (by omega)

theorem get?_frozen_readyFor (h : b.WellFormed) (color : Color Float) {n : Int}
    (hn : n < b.nextLayer) : (b.readyFor color).frozen.get? n = b.frozen.get? n := by
  unfold LayerBuilder.readyFor
  dsimp only
  split
  · exact (h.observe color).get?_frozen_rollOver hn
  · rfl

theorem get?_frozen_call (h : b.WellFormed) (c : Call) {n : Int} (hn : n < b.nextLayer) :
    (b.call c).frozen.get? n = b.frozen.get? n := by
  cases c with
  | observe color => rfl
  | classify batch width isClear color =>
      simp only [LayerBuilder.call]
      cases hbatch : batch.isEmpty with
      | true => rw [classify_of_isEmpty hbatch]
      | false =>
          cases isClear with
          | true =>
              rw [classify_clear hbatch]
              rfl
          | false => rw [classify_solid hbatch, frozen_put, h.get?_frozen_readyFor color hn]

/-- Complete layers **stay as they are**. -/
theorem get?_frozen_run (h : b.WellFormed) (calls : List Call) {n : Int} (hn : n < b.nextLayer) :
    (b.run calls).frozen.get? n = b.frozen.get? n := by
  induction calls generalizing b with
  | nil => rfl
  | cons c calls ih =>
      have hnext := nextLayer_le_call h c
      rw [run_cons, ih (h.call c) (by omega), h.get?_frozen_call c hn]

/-- In the finished layout a complete layer is the one that the builder has. -/
theorem get?_finish_of_lt (h : b.WellFormed) {n : Int} (hn : n ≠ clearLayer)
    (hlt : n < b.nextLayer) : b.finish.get? n = b.frozen.get? n := by
  rw [get?_finish_of_ne h hn, h.get?_frozen_rollOver hlt]

/-- A layer of the finished layout that is not the last was complete before. -/
theorem lt_nextLayer_of_isSome_finish (h : b.WellFormed) {n m : Int} (hn : 1 ≤ n) (hnm : n < m)
    (hm : (b.finish.get? m).isSome = true) : n < b.nextLayer := by
  rw [get?_finish_of_ne h (by rw [clearLayer]; omega), h.rollOver.isSome_frozen_iff,
    nextLayer_rollOver h] at hm
  split at hm <;> omega

end WellFormed

/-! ### Apertures -/

variable {startId : UInt32} {calls later : List Call}

/-- An aperture **keeps its size and what it holds**; later deposits in its place are added at the
end. -/
theorem aperture?_run_append
    (hcount : ((new startId).deposits (calls ++ later)).countP Deposit.isNew ≤ nameCount) {n : Int}
    {id : String} {a : Aperture} (ha : ((new startId).run calls).aperture? n id = some a) :
    ((new startId).run (calls ++ later)).aperture? n id =
      some (a.append (gathered (((new startId).run calls).deposits later) n id)) := by
  induction later using List.reverseRecOn with
  | nil =>
      rw [List.append_nil, ha]
      exact congrArg some (by simp [Aperture.append, gathered])
  | append_singleton later c ih =>
      have hwell := wellFormed_run_new startId (calls ++ later)
      rw [← List.append_assoc] at hcount ⊢
      rw [deposits_append, List.countP_append, deposits_cons, deposits_nil, List.append_nil]
        at hcount
      rw [run_append, run_cons, run_nil, hwell.aperture?_call, ih (by omega), deposits_append,
        ← run_append, deposits_cons, deposits_nil, List.append_nil, gathered_append]
      rcases depositsOf_cases ((new startId).run (calls ++ later)) c with
        hnone | ⟨batch, width, color, hone⟩
      · rw [hnone]
        exact congrArg some (by simp [Aperture.append, gathered])
      rw [hone] at hcount ⊢
      rw [gathered_singleton]
      by_cases hat :
          (((new startId).run (calls ++ later)).deposit batch width color).isAt n id = true
      · -- the aperture is there, so the deposit does not make it
        have hold :
            (((new startId).run (calls ++ later)).deposit batch width color).isNew = false := by
          rw [← Bool.not_eq_true]
          intro hnew
          rw [List.countP_singleton, if_pos hnew] at hcount
          have hfresh := aperture?_eq_none_of_isNew (by omega) hnew n
          rw [(Deposit.isAt_iff.1 hat).2, ih (by omega)] at hfresh
          cases hfresh
        rw [List.filter_cons_of_pos hat, List.filter_nil, List.foldl_cons, List.foldl_nil,
          Deposit.addTo, hold, if_pos hat]
        exact congrArg some (by simp [Aperture.append])
      · rw [List.filter_cons_of_neg hat, List.filter_nil, List.foldl_nil, if_neg hat,
          List.append_nil]

/-! ### The finished layout -/

/-- What was cleared stays, and is extended at the end. -/
theorem exists_clearLayer_finish_run_append (startId : UInt32) (calls later : List Call)
    {layer : Layer} (hlayer : ((new startId).run calls).finish.get? clearLayer = some layer) :
    ∃ layer', ((new startId).run (calls ++ later)).finish.get? clearLayer = some layer' ∧
      ∀ id a, layer.get? id = some a →
        ∃ a', layer'.get? id = some a' ∧ a'.size = a.size ∧ a.geometry <+: a'.geometry := by
  rw [get?_finish_run_clearLayer] at hlayer ⊢
  have hne : (calls.flatMap Call.cleared).isEmpty = false := by
    rw [← Bool.not_eq_true]
    intro hempty
    rw [if_pos hempty] at hlayer
    cases hlayer
  rw [hne, if_neg Bool.false_ne_true, Option.some.injEq] at hlayer
  refine ⟨_, if_neg ?_, fun id a ha => ?_⟩
  · intro hempty
    rw [List.flatMap_append, List.isEmpty_iff, List.append_eq_nil_iff] at hempty
    rw [hempty.1] at hne
    cases hne
  · by_cases hid : clearId = id
    · subst hlayer hid
      rw [Table.get?_insert_self, Option.some.injEq] at ha
      refine ⟨_, Table.get?_insert_self .., by rw [← ha], ?_⟩
      rw [← ha, List.flatMap_append]
      exact List.prefix_append ..
    · rw [← hlayer, Table.get?_insert_of_ne _ _ hid] at ha
      cases ha

/-- The finished layout of a run is the **beginning of that of a longer one**. -/
theorem growsInto_finish_run
    (hcount : ((new startId).deposits (calls ++ later)).countP Deposit.isNew ≤ nameCount) :
    ((new startId).run calls).finish.GrowsInto ((new startId).run (calls ++ later)).finish := by
  have hwell := wellFormed_run_new startId calls
  have hlonger := wellFormed_run_new startId (calls ++ later)
  constructor
  · intro n layer hlayer
    by_cases hn : n = clearLayer
    · subst hn
      exact exists_clearLayer_finish_run_append startId calls later hlayer
    obtain ⟨d, hd, rfl⟩ := (isSome_finish_iff startId calls hn).1 (by rw [hlayer]; rfl)
    -- its deposits are among those of the longer run, so the layer is still there
    have hsome : (((new startId).run (calls ++ later)).finish.get? d.layer).isSome = true := by
      refine (isSome_finish_iff startId _ hn).2 ⟨d, ?_, rfl⟩
      rw [deposits_append]
      exact List.mem_append_left _ hd
    obtain ⟨layer', hlayer'⟩ := Option.isSome_iff_exists.1 hsome
    refine ⟨layer', hlayer', fun id a ha => ?_⟩
    have hplace : ((new startId).run calls).aperture? d.layer id = some a := by
      rw [← hwell.aperture?_finish hn, Layout.aperture?, hlayer]
      exact ha
    have hgrown := aperture?_run_append hcount hplace
    rw [← hlonger.aperture?_finish hn, Layout.aperture?, hlayer'] at hgrown
    exact ⟨_, hgrown, rfl, List.prefix_append ..⟩
  · intro n m hn hnm hm layer hlayer
    have hpos : 1 ≤ n := by
      have hfrozen := hlayer
      rw [get?_finish_of_ne hwell hn] at hfrozen
      exact ((hwell.rollOver.isSome_frozen_iff n).1 (by rw [hfrozen]; rfl)).1
    have hlt := hwell.lt_nextLayer_of_isSome_finish hpos hnm hm
    have hlt' : n < ((new startId).run (calls ++ later)).nextLayer := by
      rw [run_append]
      exact Int.lt_of_lt_of_le hlt (nextLayer_le_run hwell later)
    rw [hwell.get?_finish_of_lt hn hlt] at hlayer
    rw [hlonger.get?_finish_of_lt hn hlt', run_append, hwell.get?_frozen_run later hlt, hlayer]

end LayerBuilder

end Artwork
