import Artwork.Proofs.Decimal.Comparison
import Artwork.Proofs.Layer.Deposits

/-!
**When a new layer begins.**

The builder remembers a change of the stroke colour and acts on it at the next solid batch.  So two
deposits are in one layer exactly if no colour that was seen after the first, up to and with the
second, differs from the colour of the first.  Layers are numbered in the order of their first
deposits, and no number is left out.

Main definitions:

* `LayerBuilder.Call.seen?` — the stroke colour that the builder sees in a call.

Main results:

* `LayerBuilder.layer_deposit_eq_iff` — **two deposits in one layer**;
* `LayerBuilder.isSome_finish_iff` — the ordinary layers are those with a deposit;
* `LayerBuilder.exists_layer_count` — they are numbered from one **without a gap**.
-/

set_option relaxedAutoImplicit false
set_option autoImplicit false

namespace Artwork.LayerBuilder

/-- The stroke colour that the builder sees in a call: one that is observed, or that of a solid
batch. -/
def Call.seen? : Call → Option (Color Float)
  | observe color => some color
  | classify batch _ isClear color => if batch.isEmpty || isClear then none else some color

/-! ### The number of the layer under construction -/

variable {b : LayerBuilder}

theorem nextLayer_rollOver (h : b.WellFormed) :
    b.rollOver.nextLayer = if b.current.isEmpty then b.nextLayer else b.nextLayer + 1 := by
  rw [h.rollOver_eq]
  split <;> rfl

/-- A solid batch finds the layer under construction, unless a change of the colour is pending or
comes with it. -/
theorem nextLayer_readyFor (h : b.WellFormed) (color : Color Float) :
    (b.readyFor color).nextLayer =
      if (b.observe color).rolloverPending && !b.current.isEmpty then b.nextLayer + 1
      else b.nextLayer := by
  unfold readyFor
  dsimp only
  cases hpending : (b.observe color).rolloverPending with
  | false => rfl
  | true =>
      rw [if_pos rfl, nextLayer_rollOver (h.observe color)]
      cases hempty : b.current.isEmpty with
      | true => simp [observe, hempty]
      | false => simp [observe, hempty]

theorem nextLayer_le_readyFor (h : b.WellFormed) (color : Color Float) :
    b.nextLayer ≤ (b.readyFor color).nextLayer := by
  rw [nextLayer_readyFor h]
  split <;> omega

theorem nextLayer_le_call (h : b.WellFormed) (c : Call) : b.nextLayer ≤ (b.call c).nextLayer := by
  cases c with
  | observe color => exact Int.le_refl _
  | classify batch width isClear color =>
      simp only [call]
      cases hbatch : batch.isEmpty with
      | true =>
          have hsame := classify_of_isEmpty hbatch b width isClear color
          exact Int.le_of_eq (congrArg nextLayer hsame.symm)
      | false =>
          cases isClear with
          | true =>
              have hclear : (b.classify batch width true color).nextLayer = b.nextLayer := by
                rw [classify_clear hbatch]
                rfl
              exact Int.le_of_eq hclear.symm
          | false =>
              rw [classify_solid hbatch, nextLayer_put]
              exact nextLayer_le_readyFor h color

theorem nextLayer_le_run (h : b.WellFormed) (calls : List Call) :
    b.nextLayer ≤ (b.run calls).nextLayer := by
  induction calls generalizing b with
  | nil => exact Int.le_refl _
  | cons c calls ih => exact Int.le_trans (nextLayer_le_call h c) (ih (h.call c))

/-! ### The colours between two deposits -/

theorem rolloverPending_readyFor (color : Color Float) :
    (b.readyFor color).rolloverPending = false := by
  unfold readyFor
  dsimp only
  cases hpending : (b.observe color).rolloverPending with
  | false => exact hpending
  | true =>
      rw [if_pos rfl]
      unfold rollOver
      dsimp only
      split <;> rfl

theorem seenColor_readyFor (color : Color Float) : (b.readyFor color).seenColor = some color := by
  unfold readyFor
  dsimp only
  split
  · unfold rollOver
    dsimp only
    split <;> rfl
  · rfl

@[simp] theorem rolloverPending_put (size : Float) (entries : List Entry) :
    (b.put size entries).rolloverPending = b.rolloverPending := by
  cases h : b.isNew size with
  | true => rw [put_of_isNew entries h]
  | false => rw [put_of_not_isNew entries h]

@[simp] theorem seenColor_put (size : Float) (entries : List Entry) :
    (b.put size entries).seenColor = b.seenColor := by
  cases h : b.isNew size with
  | true => rw [put_of_isNew entries h]
  | false => rw [put_of_not_isNew entries h]

/-- After entries were put into it, the layer under construction is not empty. -/
theorem isEmpty_current_put (h : b.WellFormed) (size : Float) {entries : List Entry}
    (he : entries ≠ []) : (b.put size entries).current.isEmpty = false := by
  obtain ⟨a, ha, -⟩ := h.exists_get?_put size he
  rw [← Bool.not_eq_true, Table.isEmpty_iff]
  intro hnone
  rw [hnone] at ha
  cases ha

/-- From a layer that is not empty, a solid batch stays in this layer exactly if no change is
pending and its colour equals the one seen last. -/
theorem nextLayer_readyFor_eq_iff (h : b.WellFormed) (hne : b.current.isEmpty = false)
    {last : Color Float} (hlast : b.seenColor = some last) (color : Color Float) :
    (b.readyFor color).nextLayer = b.nextLayer ↔
      b.rolloverPending = false ∧ (color == last) = true := by
  have hpending : (b.observe color).rolloverPending = (b.rolloverPending || !(color == last)) := by
    simp [observe, hlast, bne, BEq.comm (a := color)]
  have hup : b.nextLayer + 1 ≠ b.nextLayer := by omega
  rw [nextLayer_readyFor h, hne, hpending]
  cases b.rolloverPending <;> cases color == last <;> simp [hup]

/-- A call in which no colour is seen changes only the clear aperture. -/
theorem withoutClear_call_of_seen?_eq_none {c : Call} (hc : c.seen? = none) :
    (b.call c).withoutClear = b.withoutClear := by
  cases c with
  | observe color => cases hc
  | classify batch width isClear color =>
      cases isClear with
      | true => exact withoutClear_call_clear b rfl
      | false =>
          cases hbatch : batch.isEmpty with
          | true => rw [call, classify_of_isEmpty hbatch]
          | false => simp [Call.seen?, hbatch] at hc

/-- A call in which a colour is seen keeps to a layer that is not empty, with no change pending,
exactly if none was pending and the colour equals the one seen last. -/
theorem call_of_seen?_eq_some (h : b.WellFormed) (hne : b.current.isEmpty = false)
    {last x : Color Float} (hlast : b.seenColor = some last) {c : Call} (hc : c.seen? = some x) :
    (b.call c).seenColor = some x ∧ (b.call c).current.isEmpty = false ∧
      ((b.call c).nextLayer = b.nextLayer ∧ (b.call c).rolloverPending = false ↔
        b.rolloverPending = false ∧ (x == last) = true) := by
  cases c with
  | observe color =>
      obtain rfl : color = x := by simpa [Call.seen?] using hc
      refine ⟨rfl, hne, ?_⟩
      simp [call, observe, hlast, bne, BEq.comm (a := color)]
  | classify batch width isClear color =>
      obtain ⟨⟨hbatch, rfl⟩, rfl⟩ : (batch.isEmpty = false ∧ isClear = false) ∧ color = x := by
        simpa [Call.seen?] using hc
      have hready := h.readyFor color
      have hentries : batch.map Entry.ofSolid ≠ [] := by simpa using hbatch
      rw [call, classify_solid hbatch, seenColor_put, seenColor_readyFor, rolloverPending_put,
        rolloverPending_readyFor, nextLayer_put, and_iff_left rfl]
      exact ⟨rfl, isEmpty_current_put hready _ hentries,
        nextLayer_readyFor_eq_iff h hne hlast color⟩

/-- From a layer that is not empty, the next solid batch stays in this layer exactly if no
change is pending and every colour seen up to it equals the one seen last. -/
theorem nextLayer_readyFor_run_eq_iff (h : b.WellFormed) (hne : b.current.isEmpty = false)
    {last : Color Float} (hlast : b.seenColor = some last) (calls : List Call)
    (color : Color Float) :
    ((b.run calls).readyFor color).nextLayer = b.nextLayer ↔
      b.rolloverPending = false ∧
        ∀ seen ∈ calls.filterMap Call.seen? ++ [color], (seen == last) = true := by
  induction calls generalizing b last with
  | nil => simpa using nextLayer_readyFor_eq_iff h hne hlast color
  | cons c calls ih =>
      rw [run_cons]
      cases hc : c.seen? with
      | none =>
          have hsame := withoutClear_call_of_seen?_eq_none (b := b) hc
          have hlayer : (b.call c).nextLayer = b.nextLayer := congrArg (·.nextLayer) hsame
          have hcurrent : (b.call c).current = b.current := congrArg (·.current) hsame
          have hseen : (b.call c).seenColor = b.seenColor := congrArg (·.seenColor) hsame
          have hpending : (b.call c).rolloverPending = b.rolloverPending :=
            congrArg (·.rolloverPending) hsame
          rw [List.filterMap_cons_none hc, ← hlayer, ← hpending]
          exact ih (h.call c) (hcurrent ▸ hne) (hseen.trans hlast)
      | some x =>
          -- numbers never go down, so to end in this layer the run must stay in it at every call
          obtain ⟨hseen, hne', hstays⟩ := call_of_seen?_eq_some h hne hlast hc
          have hrest := ih (h.call c) hne' hseen
          have hup := nextLayer_le_call h c
          have hup' := Int.le_trans (nextLayer_le_run (h.call c) calls)
            (nextLayer_le_readyFor ((h.call c).run calls) color)
          rw [List.filterMap_cons_some hc, List.cons_append, List.forall_mem_cons]
          constructor
          · intro heq
            have hlayer : (b.call c).nextLayer = b.nextLayer := by omega
            obtain ⟨hpending, hall⟩ := hrest.1 (heq.trans hlayer.symm)
            obtain ⟨hpending', hx⟩ := hstays.1 ⟨hlayer, hpending⟩
            exact ⟨hpending', hx, fun seen hmem => BEq.trans (hall seen hmem) hx⟩
          · rintro ⟨hpending, hx, hall⟩
            obtain ⟨hlayer, hpending'⟩ := hstays.2 ⟨hpending, hx⟩
            rw [← hlayer]
            exact hrest.2 ⟨hpending', fun seen hmem => BEq.trans (hall seen hmem) (BEq.symm hx)⟩

/-- **Two deposits are in one layer** exactly if every colour that was seen after the first, up to
and with the second, equals the colour of the first. -/
theorem layer_deposit_eq_iff (h : b.WellFormed) {batch : List (Polygon Float)}
    (hbatch : batch.isEmpty = false) (width : Float) (color : Color Float) (calls : List Call)
    (batch' : List (Polygon Float)) (width' : Float) (color' : Color Float) :
    (((b.call (.classify batch width false color)).run calls).deposit batch' width' color').layer =
        (b.deposit batch width color).layer ↔
      ∀ seen ∈ calls.filterMap Call.seen? ++ [color'], (seen == color) = true := by
  have hready := h.readyFor color
  have hentries : batch.map Entry.ofSolid ≠ [] := by simpa using hbatch
  have hstep := nextLayer_readyFor_run_eq_iff (hready.put (roundWidth width) hentries)
    (isEmpty_current_put hready _ hentries) (by rw [seenColor_put, seenColor_readyFor]) calls color'
  rw [rolloverPending_put, rolloverPending_readyFor, nextLayer_put] at hstep
  simp only [call, classify_solid hbatch]
  exact hstep.trans (by simp)

/-! ### Numbering -/

/-- The deposits of a run are in layers between those under construction before and after it. -/
theorem layer_mem_deposits (h : b.WellFormed) {calls : List Call} {d : Deposit}
    (hd : d ∈ b.deposits calls) :
    b.nextLayer ≤ d.layer ∧ d.layer ≤ (b.run calls).nextLayer := by
  obtain ⟨before, batch, width, color, after, rfl, hbatch, rfl⟩ := mem_deposits_iff.1 hd
  have hbefore := h.run before
  constructor
  · exact Int.le_trans (nextLayer_le_run h before) (nextLayer_le_readyFor hbefore color)
  · have hentries : batch.map Entry.ofSolid ≠ [] := by simpa using hbatch
    have hput := (hbefore.readyFor color).put (roundWidth width) hentries
    have hafter := nextLayer_le_run hput after
    rw [nextLayer_put] at hafter
    rw [run_append, run_cons, call, classify_solid hbatch]
    exact hafter

/-- After a run there is an aperture in the place of each of its deposits. -/
theorem isSome_aperture?_of_mem_deposits (h : b.WellFormed) {calls : List Call} {d : Deposit}
    (hd : d ∈ b.deposits calls) : ((b.run calls).aperture? d.layer d.name).isSome = true := by
  obtain ⟨before, batch, width, color, after, rfl, hbatch, rfl⟩ := mem_deposits_iff.1 hd
  have hbefore := h.run before
  have hentries : batch.map Entry.ofSolid ≠ [] := by simpa using hbatch
  have hready := hbefore.readyFor color
  rw [run_append, run_cons, (hbefore.call _).aperture?_run]
  refine Deposit.isSome_foldl_addTo _ ?_
  obtain ⟨a, ha, -⟩ := hready.exists_get?_put (roundWidth width) hentries
  simp only [call, classify_solid hbatch]
  unfold aperture?
  rw [nextLayer_put]
  exact Option.isSome_iff_exists.2 ⟨a, (if_pos rfl).trans ha⟩

/-- The ordinary layers of the finished layout are **those with a deposit**. -/
theorem isSome_finish_iff (startId : UInt32) (calls : List Call) {n : Int} (hn : n ≠ clearLayer) :
    (((new startId).run calls).finish.get? n).isSome = true ↔
      ∃ d ∈ (new startId).deposits calls, d.layer = n := by
  have h := wellFormed_run_new startId calls
  constructor
  · intro hsome
    obtain ⟨layer, hlayer⟩ := Option.isSome_iff_exists.1 hsome
    have hfrozen := hlayer
    rw [get?_finish_of_ne h hn] at hfrozen
    have hne := (h.rollOver.filled_frozen n layer hfrozen).2
    -- a completed layer has an aperture, and an aperture has a deposit
    refine Classical.byContradiction fun hno => ?_
    rw [← Bool.not_eq_true, Table.isEmpty_iff] at hne
    refine hne fun id => ?_
    have hstored := aperture?_finish_run startId calls hn id
    have hnothing : ((new startId).deposits calls).filter (Deposit.isAt n id) = [] := by
      rw [List.filter_eq_nil_iff]
      intro d hd hat
      exact hno ⟨d, hd, (Deposit.isAt_iff.1 hat).1⟩
    rw [stored, hnothing, Layout.aperture?, hlayer] at hstored
    exact hstored
  · rintro ⟨d, hd, rfl⟩
    have hsome := isSome_aperture?_of_mem_deposits (wellFormed_new startId) hd
    rw [← h.aperture?_finish hn, Layout.aperture?] at hsome
    refine Classical.byContradiction fun hnone => ?_
    rw [Option.not_isSome_iff_eq_none.1 hnone] at hsome
    cases hsome

/-- The ordinary layers are numbered from one **without a gap**. -/
theorem exists_layer_count (startId : UInt32) (calls : List Call) :
    ∃ count : Nat, ∀ n, n ≠ clearLayer →
      ((((new startId).run calls).finish.get? n).isSome = true ↔ 1 ≤ n ∧ n ≤ count) := by
  have h := wellFormed_run_new startId calls
  have hpos := h.rollOver.one_le_nextLayer
  refine ⟨(((new startId).run calls).rollOver.nextLayer - 1).toNat, fun n hn => ?_⟩
  rw [get?_finish_of_ne h hn, h.rollOver.isSome_frozen_iff]
  omega

end Artwork.LayerBuilder
