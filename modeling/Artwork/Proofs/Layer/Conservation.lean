import Artwork.Proofs.Layer.Names
import Artwork.Proofs.Layer.Rollover

/-!
**Nothing is lost on the way into the layout.**

Within one cycle of names every aperture holds all that was deposited in its place, in the order of
the deposits.  Each entry has one place, the clear ones in the clear aperture, and the apertures of
the layout have all places that are taken.  So the entries of the layout are those of the calls,
each exactly once.

Main definitions:

* `Layout.geometry`, `Layout.places` — what a layout holds in a place, and its places;
* `gathered` — all that was deposited in one place.

Main results:

* `LayerBuilder.geometry_finish_run` — **an aperture holds what was gathered in its place**;
* `perm_flatMap_filter` — entries sorted by their places are the same entries;
* `LayerBuilder.perm_entries_finish_run` — no entry is lost and none is there twice.
-/

set_option relaxedAutoImplicit false
set_option autoImplicit false

namespace Artwork

/-! ### Places -/

namespace Layout

/-- The entries of an aperture, of which there are none if it is missing. -/
def geometry (layout : Layout) (n : Int) (id : String) : List Entry :=
  (layout.aperture? n id).elim [] Aperture.geometry

/-- The places of all apertures: the number of the layer and the name. -/
def places (layout : Layout) : List (Int × String) :=
  layout.entries.flatMap fun e => (Table.entries e.2).map fun a => (e.1, a.1)

theorem mem_places_iff {layout : Layout} {n : Int} {id : String} :
    (n, id) ∈ layout.places ↔ (layout.aperture? n id).isSome = true := by
  unfold places aperture?
  rw [List.mem_flatMap, Option.isSome_iff_exists]
  constructor
  · rintro ⟨⟨n', layer⟩, hlayer, hmem⟩
    obtain ⟨⟨id', a⟩, ha, heq⟩ := List.mem_map.1 hmem
    obtain ⟨rfl, rfl⟩ := Prod.mk.inj heq
    refine ⟨a, Option.bind_eq_some_iff.2 ⟨layer, ?_, ?_⟩⟩
    · exact Table.get?_eq_some_iff.2 hlayer
    · exact Table.get?_eq_some_iff.2 ha
  · rintro ⟨a, ha⟩
    obtain ⟨layer, hlayer, ha⟩ := Option.bind_eq_some_iff.1 ha
    refine ⟨(n, layer), Table.get?_eq_some_iff.1 hlayer, List.mem_map.2 ⟨(id, a), ?_, rfl⟩⟩
    exact Table.get?_eq_some_iff.1 ha

/-- Each place is there once. -/
theorem nodup_places (layout : Layout) : layout.places.Nodup := by
  unfold places
  rw [List.nodup_flatMap]
  constructor
  · rintro ⟨n, layer⟩ -
    have hnodup := layer.nodup_keys
    rw [← List.nodup_map_iff (f := fun id => (n, id)) (fun id id' h => (Prod.mk.inj h).2),
      List.map_map] at hnodup
    exact hnodup
  · refine layout.sorted.imp fun {e e'} hbefore => ?_
    rintro ⟨n, id⟩ hmem hmem'
    obtain ⟨a, -, heq⟩ := List.mem_map.1 hmem
    obtain ⟨a', -, heq'⟩ := List.mem_map.1 hmem'
    rw [(Prod.mk.inj heq).1, (Prod.mk.inj heq').1, Key.before_irrefl] at hbefore
    cases hbefore

/-- The apertures of a layout hold what it has in all its places. -/
theorem flatMap_geometry_apertures (layout : Layout) :
    layout.apertures.flatMap Aperture.geometry =
      layout.places.flatMap fun p => layout.geometry p.1 p.2 := by
  unfold apertures places
  rw [List.flatMap_assoc, List.flatMap_assoc, Table.values, List.flatMap_map]
  refine List.flatMap_congr fun e he => ?_
  rw [Table.values, List.flatMap_map, List.flatMap_map]
  refine List.flatMap_congr fun a ha => ?_
  unfold geometry aperture?
  rw [Table.get?_eq_some_iff.2 he, Option.bind_some, Table.get?_eq_some_iff.2 ha]
  rfl

end Layout

/-- Entries that are **sorted by their places** are the same entries. -/
theorem perm_flatMap_filter {κ α : Type} [DecidableEq κ] {ps : List κ} (hps : ps.Nodup)
    {xs : List (κ × α)} (hxs : ∀ x ∈ xs, x.1 ∈ ps) :
    (ps.flatMap fun p => xs.filter fun x => x.1 = p).Perm xs := by
  induction ps generalizing xs with
  | nil =>
      have hnil : xs = [] := List.eq_nil_iff_forall_not_mem.2 fun x hx => by simpa using hxs x hx
      rw [hnil]
      exact .nil
  | cons p ps ih =>
      obtain ⟨hp, hps⟩ := List.nodup_cons.1 hps
      have hothers : ∀ x ∈ xs.filter fun x => !decide (x.1 = p), x.1 ∈ ps := by
        intro x hx
        obtain ⟨hmem, hne⟩ := List.mem_filter.1 hx
        rcases List.mem_cons.1 (hxs x hmem) with heq | hin
        · simp [heq] at hne
        · exact hin
      have hrest := ih hps hothers
      -- what is left after the first place is taken out is all that the others have
      have hsame :
          (ps.flatMap fun q => (xs.filter fun x => !decide (x.1 = p)).filter fun x => x.1 = q) =
            ps.flatMap fun q => xs.filter fun x => x.1 = q := by
        refine List.flatMap_congr fun q hq => ?_
        rw [List.filter_filter]
        refine List.filter_congr fun x hx => ?_
        have hne : q ≠ p := fun heq => hp (heq ▸ hq)
        by_cases hxq : x.1 = q
        · simp [hxq, hne]
        · simp [hxq]
      rw [hsame] at hrest
      rw [List.flatMap_cons]
      exact (hrest.append_left _).trans (List.filter_append_perm ..)

/-! ### What an aperture holds -/

/-- All entries that were deposited in one place, in order. -/
def gathered (ds : List Deposit) (n : Int) (id : String) : List Entry :=
  (ds.filter (Deposit.isAt n id)).flatMap Deposit.entries

theorem gathered_append (ds later : List Deposit) (n : Int) (id : String) :
    gathered (ds ++ later) n id = gathered ds n id ++ gathered later n id := by
  rw [gathered, List.filter_append, List.flatMap_append, gathered, gathered]

theorem gathered_singleton (d : Deposit) (n : Int) (id : String) :
    gathered [d] n id = if d.isAt n id then d.entries else [] := by
  unfold gathered
  split
  · next hat => rw [List.filter_cons_of_pos hat, List.filter_nil, List.flatMap_singleton]
  · next hat => rw [List.filter_cons_of_neg hat, List.filter_nil, List.flatMap_nil]

namespace LayerBuilder

theorem depositsOf_cases (b : LayerBuilder) (c : Call) :
    b.depositsOf c = [] ∨ ∃ batch width color, b.depositsOf c = [b.deposit batch width color] := by
  unfold depositsOf
  split
  · next batch width color =>
      split
      · exact Or.inl rfl
      · exact Or.inr ⟨batch, width, color, rfl⟩
  · exact Or.inl rfl

/-- A deposit that makes no aperture finds one. -/
theorem WellFormed.isSome_aperture?_deposit {b : LayerBuilder} (h : b.WellFormed)
    {batch : List (Polygon Float)} {width : Float} {color : Color Float}
    (hnew : (b.deposit batch width color).isNew = false) :
    (b.aperture? (b.deposit batch width color).layer (b.deposit batch width color).name).isSome
      = true := by
  have hsome := (h.readyFor color).isSome_of_not_isNew hnew
  rw [← h.aperture?_readyFor color]
  unfold LayerBuilder.aperture?
  exact (congrArg Option.isSome (if_pos rfl)).trans hsome

/-- Within one cycle of names an aperture holds what was gathered in its place. -/
theorem geometry_run {startId : UInt32} {calls : List Call}
    (hcount : ((new startId).deposits calls).countP Deposit.isNew ≤ nameCount) (n : Int)
    (id : String) :
    (((new startId).run calls).aperture? n id).elim [] Aperture.geometry =
      gathered ((new startId).deposits calls) n id := by
  induction calls using List.reverseRecOn with
  | nil =>
      rw [run_nil, aperture?_new]
      rfl
  | append_singleton calls c ih =>
      have hwell := wellFormed_run_new startId calls
      rw [deposits_append, deposits_cons, deposits_nil, List.append_nil] at hcount ⊢
      rw [List.countP_append] at hcount
      have hbefore := ih (by omega)
      rw [run_append, run_cons, run_nil, hwell.aperture?_call, gathered_append, ← hbefore]
      rcases depositsOf_cases ((new startId).run calls) c with hnone | ⟨batch, width, color, hone⟩
      · rw [hnone]
        exact (List.append_nil _).symm
      rw [hone] at hcount ⊢
      rw [gathered_singleton]
      by_cases hat : (((new startId).run calls).deposit batch width color).isAt n id = true
      · rw [List.filter_cons_of_pos hat, List.filter_nil, List.foldl_cons, List.foldl_nil,
          if_pos hat]
        obtain ⟨rfl, rfl⟩ := Deposit.isAt_iff.1 hat
        unfold Deposit.addTo
        split
        · next hnew =>
            -- the name is fresh, so there was nothing before
            rw [List.countP_singleton, if_pos hnew] at hcount
            rw [aperture?_eq_none_of_isNew (by omega) hnew]
            rfl
        · next hnew =>
            have hsome := hwell.isSome_aperture?_deposit (by simpa using hnew)
            obtain ⟨a, ha⟩ := Option.isSome_iff_exists.1 hsome
            rw [ha]
            rfl
      · rw [List.filter_cons_of_neg hat, List.filter_nil, List.foldl_nil, if_neg hat,
          List.append_nil]

/-- The same **in the finished layout**, for the ordinary layers. -/
theorem geometry_finish_run {startId : UInt32} {calls : List Call}
    (hcount : ((new startId).deposits calls).countP Deposit.isNew ≤ nameCount) {n : Int}
    (hn : n ≠ clearLayer) (id : String) :
    ((new startId).run calls).finish.geometry n id =
      gathered ((new startId).deposits calls) n id := by
  rw [Layout.geometry, (wellFormed_run_new startId calls).aperture?_finish hn, geometry_run hcount]

/-- The clear layer is the clear aperture, if anything was cleared. -/
theorem get?_finish_run_clearLayer (startId : UInt32) (calls : List Call) :
    ((new startId).run calls).finish.get? clearLayer =
      if (calls.flatMap Call.cleared).isEmpty then none
      else some (Table.empty.insert clearId ⟨0, calls.flatMap Call.cleared⟩) := by
  rw [get?_finish_clearLayer (wellFormed_run_new startId calls), clear_run]
  rfl

theorem geometry_finish_run_clearLayer (startId : UInt32) (calls : List Call) (id : String) :
    ((new startId).run calls).finish.geometry clearLayer id =
      if id = clearId then calls.flatMap Call.cleared else [] := by
  rw [Layout.geometry, Layout.aperture?, get?_finish_run_clearLayer]
  split
  · next hempty =>
      rw [List.isEmpty_iff.1 hempty]
      split <;> rfl
  · rw [Option.bind_some]
    split
    · next hid =>
        rw [hid, Table.get?_insert_self]
        rfl
    · next hid =>
        rw [Table.get?_insert_of_ne _ _ (Ne.symm hid), Table.get?_empty]
        rfl

/-! ### Conservation -/

/-- Each entry of a run with its place: the clear ones, and those that were deposited. -/
def ledger (cleared : List Entry) (ds : List Deposit) : List ((Int × String) × Entry) :=
  cleared.map (((clearLayer, clearId), ·)) ++
    ds.flatMap fun d => d.entries.map (((d.layer, d.name), ·))

theorem map_snd_ledger (cleared : List Entry) (ds : List Deposit) :
    (ledger cleared ds).map Prod.snd = cleared ++ ds.flatMap Deposit.entries := by
  unfold ledger
  rw [List.map_append, List.map_map, List.map_flatMap]
  simp [Function.comp_def]

theorem filter_map_place {p q : Int × String} (entries : List Entry) :
    ((entries.map ((q, ·))).filter fun x => x.1 = p).map Prod.snd =
      if q = p then entries else [] := by
  split
  · next heq => simp [List.filter_map, heq, Function.comp_def]
  · next hne => simp [List.filter_map, hne, Function.comp_def]

/-- The deposits of the ledger gathered in a place. -/
theorem map_snd_filter_deposits (ds : List Deposit) (n : Int) (id : String) :
    ((ds.flatMap fun d => d.entries.map (((d.layer, d.name), ·))).filter
        fun x => x.1 = (n, id)).map Prod.snd = gathered ds n id := by
  induction ds with
  | nil => rfl
  | cons d ds ih =>
      have hsplit : gathered (d :: ds) n id = gathered [d] n id ++ gathered ds n id :=
        gathered_append [d] ds n id
      rw [List.flatMap_cons, List.filter_append, List.map_append, ih, filter_map_place, hsplit,
        gathered_singleton]
      simp only [Deposit.isAt_iff, Prod.mk.injEq]

variable {startId : UInt32} {calls : List Call}

/-- In each of its places the layout holds what the ledger has for it. -/
theorem geometry_eq_map_snd_filter
    (hcount : ((new startId).deposits calls).countP Deposit.isNew ≤ nameCount) (n : Int)
    (id : String) :
    ((new startId).run calls).finish.geometry n id =
      ((ledger (calls.flatMap Call.cleared) ((new startId).deposits calls)).filter
        fun x => x.1 = (n, id)).map Prod.snd := by
  unfold ledger
  rw [List.filter_append, List.map_append, map_snd_filter_deposits, filter_map_place]
  by_cases hn : n = clearLayer
  · -- no deposit is in the clear layer
    have hnone : gathered ((new startId).deposits calls) n id = [] := by
      unfold gathered
      rw [List.filter_eq_nil_iff.2, List.flatMap_nil]
      intro d hd hat
      have hpos : 1 ≤ d.layer := (layer_mem_deposits (wellFormed_new startId) hd).1
      rw [(Deposit.isAt_iff.1 hat).1, hn] at hpos
      exact absurd hpos (by decide)
    rw [hnone, hn, geometry_finish_run_clearLayer, List.append_nil]
    simp only [Prod.mk.injEq, true_and, eq_comm]
  · have hne : ¬ (clearLayer, clearId) = (n, id) := fun heq => hn (Prod.mk.inj heq).1.symm
    rw [if_neg hne, List.nil_append, geometry_finish_run hcount hn]

/-- Every entry of a run is in the layout **exactly once**. -/
theorem perm_entries_finish_run
    (hcount : ((new startId).deposits calls).countP Deposit.isNew ≤ nameCount) :
    (((new startId).run calls).finish.apertures.flatMap Aperture.geometry).Perm
      (calls.flatMap Call.cleared ++ calls.flatMap Call.painted) := by
  have hplaces : ∀ x ∈ ledger (calls.flatMap Call.cleared) ((new startId).deposits calls),
      x.1 ∈ ((new startId).run calls).finish.places := by
    rintro ⟨⟨n, id⟩, e⟩ hx
    have hmem : e ∈ ((new startId).run calls).finish.geometry n id := by
      rw [geometry_eq_map_snd_filter hcount]
      exact List.mem_map.2 ⟨((n, id), e), List.mem_filter.2 ⟨hx, by simp⟩, rfl⟩
    rw [Layout.mem_places_iff]
    refine Option.isSome_iff_ne_none.2 fun hnone => ?_
    rw [Layout.geometry, hnone] at hmem
    cases hmem
  -- sorting the ledger by the places of the layout gives back the ledger
  have hperm := perm_flatMap_filter (Layout.nodup_places _) hplaces
  rw [Layout.flatMap_geometry_apertures, ← flatMap_entries_deposits (new startId) calls,
    ← map_snd_ledger]
  refine List.Perm.trans (List.Perm.of_eq ?_) (hperm.map Prod.snd)
  rw [List.map_flatMap]
  exact List.flatMap_congr fun p _ => geometry_eq_map_snd_filter hcount p.1 p.2

end LayerBuilder

end Artwork
