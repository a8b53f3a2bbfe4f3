import Artwork.Proofs.Decimal.Widths
import Artwork.Proofs.Layer.Growth

/-!
**Batches that share an aperture.**

A batch goes by the key of its rounded width, and the keys that the builder remembers are those of
the apertures it has made in the layer under construction.  So every deposit has a *founder*, the
deposit that its aperture was made for, and the deposits with one founder are those of one key.  The
size of the aperture is the rounded width of the founder.

Main definitions:

* `Deposit.Founds` — the deposit that the aperture of another one was made for;
* `LayerBuilder.Remembers` — the apertures that the builder remembers by their keys;
* `LayerBuilder.Grouping`, `LayerBuilder.KeysSeparate` — **grouping by rounded widths**, and when the
  keys allow it.

Main results:

* `LayerBuilder.remembers_run` — what the builder remembers;
* `LayerBuilder.exists_founder`, `LayerBuilder.pairwise_agree_deposits` — there is a founder, and only
  one;
* `LayerBuilder.name_eq_iff_widthKey_eq` — one aperture, one key;
* `LayerBuilder.exists_aperture?_of_mem_deposits` — an aperture has the size of its founder;
* `LayerBuilder.grouping_finish_run` — when batches are grouped **by their rounded widths**.
-/

set_option relaxedAutoImplicit false
set_option autoImplicit false

namespace Artwork

/-- The aperture of the deposit `d` was **made for the deposit** `e`. -/
structure Deposit.Founds (e d : Deposit) : Prop where
  isNew : e.isNew = true
  layer_eq : e.layer = d.layer
  name_eq : e.name = d.name
  widthKey_eq : widthKey e.size = widthKey d.size

/-- Two deposits that made apertures of one layer have one name exactly if they have one key. -/
def Deposit.Agree (e d : Deposit) : Prop :=
  e.isNew = true → d.isNew = true → e.layer = d.layer →
    (e.name = d.name ↔ widthKey e.size = widthKey d.size)

instance : Std.Symm Deposit.Agree where
  symm e d h hnew hnew' hlayer := by rw [eq_comm, h hnew' hnew hlayer.symm, eq_comm]

namespace LayerBuilder

/-! ### What the builder remembers -/

theorem exists_mem_concat_iff {α : Type} {p : α → Prop} {xs : List α} {x : α} :
    (∃ y ∈ xs ++ [x], p y) ↔ (∃ y ∈ xs, p y) ∨ p x := by
  simp only [List.mem_append, List.mem_singleton, or_and_right, exists_or, exists_eq_left]

/-- The builder remembers the apertures of the layer under construction, by the keys of the
deposits that they were made for. -/
def Remembers (b : LayerBuilder) (ds : List Deposit) : Prop :=
  ∀ key id, b.widthIds.lookup key = some id ↔
    ∃ e ∈ ds, e.isNew = true ∧ e.layer = b.nextLayer ∧ widthKey e.size = key ∧ e.name = id

namespace Remembers

variable {b : LayerBuilder} {ds : List Deposit}

theorem rollOver (h : b.Remembers ds) (hwell : b.WellFormed)
    (hds : ∀ e ∈ ds, e.layer ≤ b.nextLayer) : b.rollOver.Remembers ds := by
  intro key id
  rw [hwell.rollOver_eq]
  split
  · next hempty =>
      -- an empty layer has nothing that could be remembered
      have hnil : b.widthIds = [] := by
        refine List.eq_nil_iff_forall_not_mem.2 fun e he => ?_
        have hsome := hwell.isSome_current e he
        rw [Table.isEmpty_iff.1 hempty] at hsome
        cases hsome
      have hsame := h key id
      rw [hnil] at hsame
      exact hsame
  · refine iff_of_false nofun ?_
    rintro ⟨e, he, -, hlayer, -⟩
    have hle := hds e he
    dsimp only at hlayer
    omega

theorem readyFor (h : b.Remembers ds) (hwell : b.WellFormed)
    (hds : ∀ e ∈ ds, e.layer ≤ b.nextLayer) (color : Color Float) :
    (b.readyFor color).Remembers ds := by
  unfold LayerBuilder.readyFor
  dsimp only
  split
  · exact rollOver (b := b.observe color) h (hwell.observe color) hds
  · exact h

/-- A deposit that makes an aperture is remembered, and the others change nothing. -/
theorem put (h : b.Remembers ds) (size : Float) (entries : List Entry) :
    (b.put size entries).Remembers (ds ++ [b.depositIn size entries]) := by
  intro key id
  rw [nextLayer_put, exists_mem_concat_iff, ← h key id]
  cases hnew : b.isNew size with
  | true =>
      have hmade : (b.depositIn size entries).isNew = true := hnew
      rw [put_of_isNew entries hnew]
      dsimp only
      by_cases hkey : key = widthKey size
      · subst hkey
        -- no aperture of this key has been there
        have hnone : b.widthIds.lookup (widthKey size) = none := Option.isNone_iff_eq_none.1 hnew
        rw [List.lookup_cons_self, hnone, Option.some.injEq]
        constructor
        · exact fun hid => Or.inr ⟨hmade, rfl, rfl, hid⟩
        · rintro (hid | ⟨-, -, -, hid⟩)
          · cases hid
          · exact hid
      · rw [List.lookup_cons, beq_eq_false_iff_ne.2 hkey]
        exact (or_iff_left fun hd => hkey hd.2.2.1.symm).symm
  | false =>
      have hold : (b.depositIn size entries).isNew = false := hnew
      rw [put_of_not_isNew entries hnew]
      refine (or_iff_left ?_).symm
      rintro ⟨hmade, -⟩
      rw [hold] at hmade
      cases hmade

end Remembers

/-- **What the builder remembers** after a run. -/
theorem remembers_run (startId : UInt32) (calls : List Call) :
    ((new startId).run calls).Remembers ((new startId).deposits calls) := by
  induction calls using List.reverseRecOn with
  | nil => exact fun key id => iff_of_false nofun nofun
  | append_singleton calls c ih =>
      have hwell := wellFormed_run_new startId calls
      have hds : ∀ e ∈ (new startId).deposits calls,
          e.layer ≤ ((new startId).run calls).nextLayer :=
        fun e he => (layer_mem_deposits (wellFormed_new startId) he).2
      rw [run_append, deposits_append, run_cons, run_nil, deposits_cons, deposits_nil,
        List.append_nil]
      cases c with
      | observe color =>
          rw [show ((new startId).run calls).depositsOf (.observe color) = [] from rfl,
            List.append_nil]
          exact ih
      | classify batch width isClear color =>
          cases hbatch : batch.isEmpty with
          | true =>
              have hnone : ((new startId).run calls).depositsOf
                  (.classify batch width isClear color) = [] := by
                cases isClear <;> simp [depositsOf, hbatch]
              rw [hnone, List.append_nil, call, classify_of_isEmpty hbatch]
              exact ih
          | false =>
              cases isClear with
              | true =>
                  rw [call, classify_clear hbatch]
                  exact (List.append_nil _).symm ▸ ih
              | false =>
                  have hone : ((new startId).run calls).depositsOf
                      (.classify batch width false color) =
                        [((new startId).run calls).deposit batch width color] := by
                    simp [depositsOf, hbatch]
                  rw [hone, call, classify_solid hbatch]
                  exact (ih.readyFor hwell hds color).put _ _

/-- A solid batch finds what is remembered for its layer. -/
theorem remembers_readyFor_run (startId : UInt32) (calls : List Call) (color : Color Float) :
    (((new startId).run calls).readyFor color).Remembers ((new startId).deposits calls) :=
  (remembers_run startId calls).readyFor (wellFormed_run_new startId calls)
    (fun _ he => (layer_mem_deposits (wellFormed_new startId) he).2) color

/-! ### Founders -/

variable {startId : UInt32} {calls : List Call}

/-- Every aperture **was made for a deposit** of the same key. -/
theorem exists_founder {d : Deposit} (hd : d ∈ (new startId).deposits calls) :
    ∃ e ∈ (new startId).deposits calls, e.Founds d := by
  obtain ⟨before, batch, width, color, after, rfl, hbatch, rfl⟩ := mem_deposits_iff.1 hd
  cases hnew : (((new startId).run before).deposit batch width color).isNew with
  | true => exact ⟨_, hd, hnew, rfl, rfl, rfl⟩
  | false =>
      have hfound := lookup_of_not_isNew (b := ((new startId).run before).readyFor color) hnew
      obtain ⟨e, he, henew, hlayer, hkey, hname⟩ :=
        (remembers_readyFor_run startId before color _ _).1 hfound
      refine ⟨e, ?_, henew, hlayer, hname, hkey⟩
      rw [deposits_append]
      exact List.mem_append_left _ he

/-- An aperture that is made has a name and a key of its own in its layer. -/
theorem name_ne_and_widthKey_ne {batch : List (Polygon Float)} {width : Float}
    {color : Color Float} {e : Deposit}
    (hcount : ((new startId).deposits calls).countP Deposit.isNew < nameCount)
    (he : e ∈ (new startId).deposits calls) (henew : e.isNew = true)
    (hnew : (((new startId).run calls).deposit batch width color).isNew = true)
    (hlayer : e.layer = (((new startId).run calls).deposit batch width color).layer) :
    e.name ≠ (((new startId).run calls).deposit batch width color).name ∧
      widthKey e.size ≠
        widthKey (((new startId).run calls).deposit batch width color).size := by
  constructor
  · obtain ⟨k, hk, hname⟩ := exists_nthName_of_mem_deposits he henew
    rw [hname, name_deposit_of_isNew hnew]
    exact nthName_ne _ hk hcount
  · intro hkey
    have hfound := (remembers_readyFor_run startId calls color _ _).2
      ⟨e, he, henew, hlayer, hkey, rfl⟩
    have hnone := Option.isNone_iff_eq_none.1 hnew
    rw [deposit, depositIn] at hfound
    rw [hnone] at hfound
    cases hfound

/-- Within one cycle of names, the apertures of a layer **differ in their names and their keys**. -/
theorem pairwise_agree_deposits
    (hcount : ((new startId).deposits calls).countP Deposit.isNew ≤ nameCount) :
    ((new startId).deposits calls).Pairwise Deposit.Agree := by
  induction calls using List.reverseRecOn with
  | nil => exact .nil
  | append_singleton calls c ih =>
      rw [deposits_append, deposits_cons, deposits_nil, List.append_nil] at hcount ⊢
      rw [List.countP_append] at hcount
      refine List.pairwise_append.2 ⟨ih (by omega), ?_, ?_⟩
      · rcases depositsOf_cases ((new startId).run calls) c with hnone | ⟨_, _, _, hone⟩
        · rw [hnone]
          exact .nil
        · rw [hone]
          exact List.pairwise_singleton ..
      · intro e he d hd henew hnew hlayer
        have hpos : 0 < (((new startId).run calls).depositsOf c).countP Deposit.isNew :=
          List.countP_pos_iff.2 ⟨d, hd, hnew⟩
        obtain ⟨batch, width, color, -, -, rfl⟩ := mem_depositsOf_iff.1 hd
        obtain ⟨hname, hkey⟩ := name_ne_and_widthKey_ne (by omega) he henew hnew hlayer
        exact iff_of_false hname hkey

/-- **One aperture, one key**: two deposits in one layer have the same name exactly if their rounded
widths have the same key. -/
theorem name_eq_iff_widthKey_eq
    (hcount : ((new startId).deposits calls).countP Deposit.isNew ≤ nameCount) {d d' : Deposit}
    (hd : d ∈ (new startId).deposits calls) (hd' : d' ∈ (new startId).deposits calls)
    (hlayer : d.layer = d'.layer) :
    d.name = d'.name ↔ widthKey d.size = widthKey d'.size := by
  obtain ⟨e, he, hfounds⟩ := exists_founder hd
  obtain ⟨e', he', hfounds'⟩ := exists_founder hd'
  have hagree : e.Agree e' :=
    (pairwise_agree_deposits hcount).forall_of_forall (fun _ _ _ _ _ => iff_of_true rfl rfl) he he'
  have hiff := hagree hfounds.isNew hfounds'.isNew
    (by rw [hfounds.layer_eq, hlayer, hfounds'.layer_eq])
  rwa [hfounds.name_eq, hfounds'.name_eq, hfounds.widthKey_eq, hfounds'.widthKey_eq] at hiff

/-! ### Sizes -/

/-- An aperture that was made for a deposit keeps its size. -/
theorem size_aperture?_of_isNew
    (hcount : ((new startId).deposits calls).countP Deposit.isNew ≤ nameCount) {e : Deposit}
    (he : e ∈ (new startId).deposits calls) (hnew : e.isNew = true) :
    ∃ a, ((new startId).run calls).finish.aperture? e.layer e.name = some a ∧ a.size = e.size := by
  have hpos := (layer_mem_deposits (wellFormed_new startId) he).1
  rw [(wellFormed_run_new startId calls).aperture?_finish
    (Int.ne_of_gt (Int.lt_of_lt_of_le Int.zero_lt_one hpos))]
  obtain ⟨before, batch, width, color, after, rfl, hbatch, rfl⟩ := mem_deposits_iff.1 he
  generalize hd : ((new startId).run before).deposit batch width color = d at *
  have hone : ((new startId).run before).depositsOf (.classify batch width false color) = [d] := by
    simp [depositsOf, hbatch, hd]
  have hmade : ((new startId).run (before ++ [.classify batch width false color])).aperture?
      d.layer d.name = some ⟨d.size, d.entries⟩ := by
    rw [run_append, run_cons, run_nil, (wellFormed_run_new startId before).aperture?_call, hone,
      List.filter_cons_of_pos (Deposit.isAt_iff.2 ⟨rfl, rfl⟩), List.filter_nil, List.foldl_cons,
      List.foldl_nil, Deposit.addTo, if_pos hnew]
  rw [List.append_cons] at hcount ⊢
  exact ⟨_, aperture?_run_append hcount hmade, rfl⟩

/-- An aperture has **the size of its founder**, and it holds every deposit that is put into it. -/
theorem exists_aperture?_of_mem_deposits
    (hcount : ((new startId).deposits calls).countP Deposit.isNew ≤ nameCount) {d : Deposit}
    (hd : d ∈ (new startId).deposits calls) :
    ∃ e ∈ (new startId).deposits calls, e.Founds d ∧
      ((new startId).run calls).finish.aperture? d.layer d.name =
        some ⟨e.size, gathered ((new startId).deposits calls) d.layer d.name⟩ := by
  have hpos := (layer_mem_deposits (wellFormed_new startId) hd).1
  have hgathered := geometry_finish_run hcount
    (Int.ne_of_gt (Int.lt_of_lt_of_le Int.zero_lt_one hpos)) d.name
  obtain ⟨e, he, hfounds⟩ := exists_founder hd
  obtain ⟨a, ha, hsize⟩ := size_aperture?_of_isNew hcount he hfounds.isNew
  rw [hfounds.layer_eq, hfounds.name_eq] at ha
  rw [Layout.geometry, ha] at hgathered
  refine ⟨e, he, hfounds, ?_⟩
  rw [ha, ← hgathered, ← hsize]
  rfl

/-! ### Grouping by width -/

/-- The rounded width and the entries of a call, if it is a solid batch. -/
def Call.solid? : Call → Option (Float × List Entry)
  | classify batch width false _ =>
    if batch.isEmpty then none else some (roundWidth width, batch.map .ofSolid)
  | _ => none

/-- The deposits are the solid batches with their rounded widths, in order. -/
theorem map_deposits (b : LayerBuilder) (calls : List Call) :
    (b.deposits calls).map (fun d => (d.size, d.entries)) = calls.filterMap Call.solid? := by
  induction calls generalizing b with
  | nil => rfl
  | cons c calls ih =>
      have hone : (b.depositsOf c).map (fun d => (d.size, d.entries)) = c.solid?.toList := by
        cases c with
        | observe color => rfl
        | classify batch width isClear color =>
            cases isClear with
            | true => rfl
            | false =>
                simp only [depositsOf, Call.solid?]
                split <;> rfl
      rw [deposits_cons, List.map_append, hone, ih]
      cases hsolid : c.solid? with
      | none => rw [List.filterMap_cons_none hsolid]; rfl
      | some x => rw [List.filterMap_cons_some hsolid]; rfl

/-- A deposit is in one piece in what is gathered in its place. -/
theorem entries_infix_gathered {ds : List Deposit} {d : Deposit} (hd : d ∈ ds) :
    d.entries <:+: gathered ds d.layer d.name := by
  obtain ⟨before, after, rfl⟩ := List.append_of_mem hd
  rw [gathered_append, ← List.singleton_append, gathered_append, gathered_singleton,
    if_pos (Deposit.isAt_iff.2 ⟨rfl, rfl⟩), ← List.append_assoc]
  exact List.infix_append ..

/-- Solid batches **share apertures by their rounded widths**. -/
structure Grouping (startId : UInt32) (calls : List Call) (layout : Layout) : Prop where
  /-- The deposits are the solid batches, in order. -/
  map_deposits : ((new startId).deposits calls).map (fun d => (d.size, d.entries)) =
    calls.filterMap Call.solid?
  /-- Two of them in one layer are in one aperture exactly if their rounded widths are equal. -/
  name_eq_iff : ∀ d ∈ (new startId).deposits calls, ∀ d' ∈ (new startId).deposits calls,
    d.layer = d'.layer → (d.name = d'.name ↔ (d.size == d'.size) = true)
  /-- The size of an aperture equals the rounded width of every batch that is in it. -/
  exists_aperture : ∀ d ∈ (new startId).deposits calls, ∃ a,
    layout.aperture? d.layer d.name = some a ∧ d.entries <:+: a.geometry ∧
      (a.size == d.size) = true

/-- No two rounded widths in one layer **have the same key** unless they are equal. -/
def KeysSeparate (ds : List Deposit) : Prop :=
  ∀ d ∈ ds, ∀ d' ∈ ds, d.layer = d'.layer → widthKey d.size = widthKey d'.size →
    (d.size == d'.size) = true

/-- Up to `2 ^ 35` in size, widths that are rounded to different doubles have different keys. -/
theorem keysSeparate_deposits (startId : UInt32) {calls : List Call}
    (hwidths : ∀ batch width color, Call.classify batch width false color ∈ calls →
      -34359738368 ≤ width ∧ width ≤ 34359738368) :
    KeysSeparate ((new startId).deposits calls) := by
  have hbounded : ∀ d ∈ (new startId).deposits calls, ∃ width, d.size = roundWidth width ∧
      -34359738368 ≤ width ∧ width ≤ 34359738368 := by
    intro d hd
    obtain ⟨before, batch, width, color, after, rfl, -, rfl⟩ := mem_deposits_iff.1 hd
    exact ⟨width, rfl, hwidths batch width color (by simp)⟩
  intro d hd d' hd' _ hkey
  obtain ⟨width, hsize, hlow, hhigh⟩ := hbounded d hd
  obtain ⟨width', hsize', hlow', hhigh'⟩ := hbounded d' hd'
  rw [hsize, hsize'] at hkey ⊢
  exact (widthKey_roundWidth_eq_iff hlow hhigh hlow' hhigh').1 hkey

/-- Within one cycle of names, batches are grouped by their rounded widths **exactly if the keys
keep these apart**, which they do up to `2 ^ 35` in size. -/
theorem grouping_finish_run (startId : UInt32) (calls : List Call)
    (hminted : ((new startId).deposits calls).countP Deposit.isNew ≤ 2 ^ 32 - 1) :
    (Grouping startId calls ((new startId).run calls).finish ↔
        KeysSeparate ((new startId).deposits calls)) ∧
      ((∀ batch width color, Call.classify batch width false color ∈ calls →
          -34359738368 ≤ width ∧ width ≤ 34359738368) →
        Grouping startId calls ((new startId).run calls).finish) := by
  have hiff : Grouping startId calls ((new startId).run calls).finish ↔
      KeysSeparate ((new startId).deposits calls) := by
    constructor
    · intro h d hd d' hd' hlayer hkey
      have hname := (name_eq_iff_widthKey_eq hminted hd hd' hlayer).2 hkey
      exact (h.name_eq_iff d hd d' hd' hlayer).1 hname
    · intro h
      refine ⟨map_deposits _ _, fun d hd d' hd' hlayer => ?_, fun d hd => ?_⟩
      · rw [name_eq_iff_widthKey_eq hminted hd hd' hlayer]
        exact ⟨h d hd d' hd' hlayer, widthKey_eq_of_beq⟩
      · obtain ⟨e, he, hfounds, ha⟩ := exists_aperture?_of_mem_deposits hminted hd
        exact ⟨_, ha, entries_infix_gathered hd, h e he d hd hfounds.layer_eq hfounds.widthKey_eq⟩
  exact ⟨hiff, fun hwidths => hiff.2 (keysSeparate_deposits startId hwidths)⟩

/-- A triangle. -/
def triangle : Polygon Float :=
  .ofRings [[⟨0, 0⟩, ⟨10, 10⟩, ⟨10, 0⟩]]

/-- Triangles painted in black with lines of these widths. -/
def paintedWith (widths : List Float) : List Call :=
  widths.map fun width => .classify [triangle] width false .black

theorem grouping_finish_run_threeWidths :
    ((new 10).deposits (paintedWith [1, 1.000001, 2])).countP Deposit.isNew ≤ 2 ^ 32 - 1 ∧
      ((new 10).deposits (paintedWith [1, 1.000001, 2])).map (fun d => (d.layer, d.name)) =
        [(1, "10"), (1, "10"), (1, "11")] ∧
      Grouping 10 (paintedWith [1, 1.000001, 2])
        ((new 10).run (paintedWith [1, 1.000001, 2])).finish := by
  refine ⟨by decide +kernel, by decide +kernel,
    (grouping_finish_run 10 (paintedWith [1, 1.000001, 2]) (by decide +kernel)).2 ?_⟩
  intro batch width color hmem
  obtain ⟨width', hwidth, heq⟩ := List.mem_map.1 hmem
  obtain ⟨-, rfl, -⟩ := Call.classify.inj heq
  have hall : ∀ w ∈ [(1 : Float), 1.000001, 2], -34359738368 ≤ w ∧ w ≤ 34359738368 := by
    decide +kernel
  exact hall width' hwidth

/-- Two finite widths that are **beyond the greatest key** share an aperture, although they are
rounded to different doubles. -/
theorem not_grouping_wideWidths :
    ((1e20 : Float).isFinite = true ∧ (2e20 : Float).isFinite = true) ∧
      ((new 10).deposits (paintedWith [1e20, 2e20])).countP Deposit.isNew ≤ 2 ^ 32 - 1 ∧
      ((new 10).deposits (paintedWith [1e20, 2e20])).map (fun d => (d.layer, d.name)) =
        [(1, "10"), (1, "10")] ∧
      (roundWidth 1e20 == roundWidth 2e20) = false ∧
      ¬ Grouping 10 (paintedWith [1e20, 2e20])
        ((new 10).run (paintedWith [1e20, 2e20])).finish := by
  refine ⟨by decide +kernel, by decide +kernel, by decide +kernel, by decide +kernel, fun h => ?_⟩
  have hshared : ∃ d ∈ (new 10).deposits (paintedWith [1e20, 2e20]),
      ∃ d' ∈ (new 10).deposits (paintedWith [1e20, 2e20]),
        d.layer = d'.layer ∧ d.name = d'.name ∧ (d.size == d'.size) = false := by
    decide +kernel
  obtain ⟨d, hd, d', hd', hlayer, hname, hsize⟩ := hshared
  rw [(h.name_eq_iff d hd d' hd' hlayer).1 hname] at hsize
  cases hsize

end LayerBuilder

end Artwork
