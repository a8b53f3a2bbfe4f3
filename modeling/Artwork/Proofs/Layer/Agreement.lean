import Artwork.Proofs.Layer.Naming

/-!
**The stores of the builder agree.**

The builder keeps the apertures of the layer under construction in one store and their names, by the
keys of their widths, in another; complete layers are in a third.  An aperture is looked up in the first
store by the name that the second one gives, and a batch whose aperture is not found there is lost.  That
never happens: a key is remembered once, the names that are remembered are those of the apertures, and
the key of each is that of its size.

Keys are told apart by an invariant of their own.  The rest is read off the deposits of the run, which
say for every aperture of every layer what it was made for.

Main definitions:

* `LayerBuilder.KeysDistinct` — **no key is remembered twice**;
* `LayerBuilder.Agreeing` — what the stores have to do with each other.

Main results:

* `LayerBuilder.KeysDistinct.run` — every call keeps the keys distinct;
* `LayerBuilder.WellFormed.isSome_apertureFor` — the aperture of a width is found once it is
  registered;
* `LayerBuilder.lookup_eq_some_iff` — names are remembered by the keys of the sizes;
* `LayerBuilder.layer_eq_of_isSome` — **a name is in one layer**;
* `LayerBuilder.agreeing_run` — the stores agree after every run.
-/

set_option relaxedAutoImplicit false
set_option autoImplicit false

namespace Artwork.LayerBuilder

/-! ### Keys -/

/-- No key **is remembered twice**. -/
def KeysDistinct (b : LayerBuilder) : Prop :=
  (b.widthIds.map Prod.fst).Nodup

namespace KeysDistinct

variable {b : LayerBuilder}

theorem rollOver (b : LayerBuilder) : b.rollOver.KeysDistinct := by
  have hnil : b.rollOver.widthIds = [] := by
    unfold LayerBuilder.rollOver
    dsimp only
    split <;> rfl
  unfold KeysDistinct
  rw [hnil]
  exact List.nodup_nil

theorem readyFor (h : b.KeysDistinct) (color : Color Float) : (b.readyFor color).KeysDistinct := by
  unfold LayerBuilder.readyFor
  dsimp only
  split
  · exact rollOver (b.observe color)
  · exact h

/-- A key is remembered if it was not found. -/
theorem put (h : b.KeysDistinct) (size : Float) (entries : List Entry) :
    (b.put size entries).KeysDistinct := by
  cases hnew : b.isNew size with
  | true =>
      have hnone : b.widthIds.lookup (widthKey size) = none := Option.isNone_iff_eq_none.1 hnew
      rw [put_of_isNew entries hnew]
      refine List.nodup_cons.2 ⟨?_, h⟩
      intro hmem
      obtain ⟨e, he, hkey⟩ := List.mem_map.1 hmem
      have hne := List.lookup_eq_none_iff.1 hnone e he
      rw [hkey] at hne
      simp at hne
  | false =>
      rw [put_of_not_isNew entries hnew]
      exact h

theorem call (h : b.KeysDistinct) (c : Call) : (b.call c).KeysDistinct := by
  cases c with
  | observe color => exact h
  | classify batch width isClear color =>
      simp only [LayerBuilder.call]
      cases hbatch : batch.isEmpty with
      | true => rwa [classify_of_isEmpty hbatch]
      | false =>
          cases isClear with
          | true =>
              rw [classify_clear hbatch]
              exact h
          | false =>
              rw [classify_solid hbatch]
              exact (h.readyFor color).put _ _

theorem run (h : b.KeysDistinct) (calls : List Call) : (b.run calls).KeysDistinct := by
  induction calls generalizing b with
  | nil => exact h
  | cons c calls ih => exact ih (h.call c)

end KeysDistinct

/-! ### Apertures in their places -/

namespace WellFormed

variable {b : LayerBuilder}

/-- Once a width is registered, its aperture **is found**. -/
theorem isSome_apertureFor (h : b.WellFormed) (size : Float) :
    ((b.apertureFor size).2.current.get? (b.apertureFor size).1).isSome = true := by
  unfold LayerBuilder.apertureFor
  dsimp only
  split
  · next id hfound =>
      obtain ⟨before, after, heq, -⟩ := List.lookup_eq_some_iff.1 hfound
      exact h.isSome_current (widthKey size, id) (by rw [heq]; simp)
  · rw [Table.get?_insert_self]
    rfl

/-- What is found in a complete layer is found in its place. -/
theorem isSome_of_frozen (h : b.WellFormed) {n : Int} {id : String}
    (hsome : (b.frozen.aperture? n id).isSome = true) :
    n < b.nextLayer ∧ (b.aperture? n id).isSome = true := by
  obtain ⟨a, ha⟩ := Option.isSome_iff_exists.1 hsome
  obtain ⟨layer, hlayer, -⟩ := Option.bind_eq_some_iff.1 ha
  have hlt := ((h.isSome_frozen_iff n).1 (by rw [hlayer]; rfl)).2
  refine ⟨hlt, ?_⟩
  unfold LayerBuilder.aperture?
  rwa [if_neg (by omega)]

end WellFormed

theorem aperture?_nextLayer (b : LayerBuilder) (id : String) :
    b.aperture? b.nextLayer id = b.current.get? id := by
  unfold aperture?
  rw [if_pos rfl]

section Run

variable {startId : UInt32} {calls : List Call} (hminted : minted startId calls ≤ nameCount)
include hminted

/-- Two deposits that made apertures have different names. -/
theorem eq_of_name_eq {d d' : Deposit} (hd : d ∈ (new startId).deposits calls)
    (hnew : d.isNew = true) (hd' : d' ∈ (new startId).deposits calls) (hnew' : d'.isNew = true)
    (hname : d.name = d'.name) : d = d' := by
  have hnodup : ((((new startId).deposits calls).filter Deposit.isNew).map Deposit.name).Nodup := by
    rw [map_name_filter_isNew, ← firstNames_eq startId hminted]
    exact nodup_firstNames startId hminted
  exact List.inj_on_of_nodup_map hnodup (List.mem_filter.2 ⟨hd, hnew⟩)
    (List.mem_filter.2 ⟨hd', hnew'⟩) hname

/-- What was made for a deposit is in its place, with its size. -/
theorem exists_aperture?_of_isNew {d : Deposit} (hd : d ∈ (new startId).deposits calls)
    (hnew : d.isNew = true) :
    ∃ a, ((new startId).run calls).aperture? d.layer d.name = some a ∧ a.size = d.size := by
  have hpos : 1 ≤ d.layer := (layer_mem_deposits (wellFormed_new startId) hd).1
  rw [← (wellFormed_run_new startId calls).aperture?_finish (by rw [clearLayer]; omega)]
  exact size_aperture?_of_isNew hminted hd hnew

/-- What is in a place was made for a deposit of its size. -/
theorem exists_isNew_of_aperture? {n : Int} {id : String} {a : Aperture}
    (ha : ((new startId).run calls).aperture? n id = some a) :
    ∃ d ∈ (new startId).deposits calls,
      d.isNew = true ∧ d.layer = n ∧ d.name = id ∧ d.size = a.size := by
  obtain ⟨d, hd, hnew, rfl, rfl⟩ := exists_isNew_of_isSome_aperture? (by rw [ha]; rfl)
  obtain ⟨a', ha', hsize⟩ := exists_aperture?_of_isNew hminted hd hnew
  rw [ha, Option.some.injEq] at ha'
  exact ⟨d, hd, hnew, rfl, rfl, by rw [ha', hsize]⟩

/-- **A name is in one layer**, complete or under construction. -/
theorem layer_eq_of_isSome {n n' : Int} {id : String}
    (h : (((new startId).run calls).aperture? n id).isSome = true)
    (h' : (((new startId).run calls).aperture? n' id).isSome = true) : n = n' := by
  obtain ⟨d, hd, hnew, rfl, hname⟩ := exists_isNew_of_isSome_aperture? h
  obtain ⟨d', hd', hnew', rfl, hname'⟩ := exists_isNew_of_isSome_aperture? h'
  rw [eq_of_name_eq hminted hd hnew hd' hnew' (hname.trans hname'.symm)]

/-- Names are remembered **by the keys of the sizes** of their apertures. -/
theorem lookup_eq_some_iff (key : Int) (id : String) :
    ((new startId).run calls).widthIds.lookup key = some id ↔
      ∃ a, ((new startId).run calls).current.get? id = some a ∧ widthKey a.size = key := by
  rw [remembers_run startId calls key id]
  constructor
  · rintro ⟨d, hd, hnew, hlayer, rfl, rfl⟩
    obtain ⟨a, ha, hsize⟩ := exists_aperture?_of_isNew hminted hd hnew
    rw [hlayer, aperture?_nextLayer] at ha
    exact ⟨a, ha, by rw [hsize]⟩
  · rintro ⟨a, ha, rfl⟩
    rw [← aperture?_nextLayer] at ha
    obtain ⟨d, hd, hnew, hlayer, hname, hsize⟩ := exists_isNew_of_aperture? hminted ha
    exact ⟨d, hd, hnew, hlayer, by rw [hsize], hname⟩

end Run

/-! ### The stores -/

/-- What the stores have to do with each other. -/
structure Agreeing (b : LayerBuilder) : Prop where
  /-- No key is remembered twice, -/
  keysDistinct : b.KeysDistinct
  /-- and the keys stand for the apertures of the layer under construction, each for one of them. -/
  bijOn_lookup : Set.BijOn (fun key => b.widthIds.lookup key) {key | key ∈ b.widthIds.map Prod.fst}
    (some '' {id | (b.current.get? id).isSome = true})
  /-- The key that an aperture is remembered by is that of its size. -/
  lookup_eq_some_iff : ∀ key id, b.widthIds.lookup key = some id ↔
    ∃ a, b.current.get? id = some a ∧ widthKey a.size = key
  /-- Once the aperture of a batch is registered, it is found. -/
  isSome_apertureFor : ∀ color size, (((b.readyFor color).apertureFor size).2.current.get?
    ((b.readyFor color).apertureFor size).1).isSome = true
  /-- No aperture is empty, in the layer under construction or in a complete one. -/
  geometry_current : ∀ id a, b.current.get? id = some a → a.geometry ≠ []
  geometry_frozen : ∀ n id a, b.frozen.aperture? n id = some a → a.geometry ≠ []
  /-- The complete layers are those before the one under construction, without a gap. -/
  isSome_frozen_iff : ∀ n, (b.frozen.get? n).isSome = true ↔ 1 ≤ n ∧ n < b.nextLayer
  /-- No two layers have an aperture of the same name. -/
  eq_of_frozen : ∀ n n' id, (b.frozen.aperture? n id).isSome = true →
    (b.frozen.aperture? n' id).isSome = true → n = n'
  current_eq_none : ∀ n id, (b.frozen.aperture? n id).isSome = true → b.current.get? id = none

/-- Keys that are those of the sizes stand for the apertures one by one. -/
theorem bijOn_of_lookup_eq_some_iff {b : LayerBuilder}
    (h : ∀ key id, b.widthIds.lookup key = some id ↔
      ∃ a, b.current.get? id = some a ∧ widthKey a.size = key) :
    Set.BijOn (fun key => b.widthIds.lookup key) {key | key ∈ b.widthIds.map Prod.fst}
      (some '' {id | (b.current.get? id).isSome = true}) := by
  have hfound : ∀ key, key ∈ b.widthIds.map Prod.fst ↔ ∃ id, b.widthIds.lookup key = some id := by
    intro key
    rw [← Option.isSome_iff_exists, List.lookup_isSome_iff, List.mem_map]
    exact exists_congr fun e => and_congr_right fun _ => by rw [beq_iff_eq, eq_comm]
  refine ⟨?mapsTo, ?injOn, ?surjOn⟩
  case mapsTo =>
    intro key hkey
    obtain ⟨id, hid⟩ := (hfound key).1 hkey
    obtain ⟨a, ha, -⟩ := (h key id).1 hid
    exact ⟨id, Option.isSome_iff_exists.2 ⟨a, ha⟩, hid.symm⟩
  case injOn =>
    intro key hkey key' _ heq
    obtain ⟨id, hid⟩ := (hfound key).1 hkey
    obtain ⟨a, ha, rfl⟩ := (h key id).1 hid
    have hid' : b.widthIds.lookup key' = some id := heq.symm.trans hid
    obtain ⟨a', ha', rfl⟩ := (h key' id).1 hid'
    rw [ha, Option.some.injEq] at ha'
    rw [ha']
  case surjOn =>
    rintro _ ⟨id, hid, rfl⟩
    obtain ⟨a, ha⟩ := Option.isSome_iff_exists.1 hid
    have hkey := (h (widthKey a.size) id).2 ⟨a, ha, rfl⟩
    exact ⟨widthKey a.size, (hfound _).2 ⟨id, hkey⟩, hkey⟩

/-- Within one cycle of names the stores agree **after every run**. -/
theorem agreeing_run (startId : UInt32) (calls : List Call)
    (hminted : minted startId calls ≤ 2 ^ 32 - 1) : ((new startId).run calls).Agreeing := by
  have hwell := wellFormed_run_new startId calls
  have hkeys : ((new startId).run calls).KeysDistinct :=
    KeysDistinct.run (b := new startId) List.nodup_nil calls
  have hlookup := lookup_eq_some_iff hminted
  refine
    { keysDistinct := hkeys
      bijOn_lookup := bijOn_of_lookup_eq_some_iff hlookup
      lookup_eq_some_iff := hlookup
      isSome_apertureFor := fun color size => (hwell.readyFor color).isSome_apertureFor size
      geometry_current := fun id a ha => List.isEmpty_eq_false_iff.1 (hwell.filled_current id a ha)
      geometry_frozen := ?geometry_frozen
      isSome_frozen_iff := hwell.isSome_frozen_iff
      eq_of_frozen := ?eq_of_frozen
      current_eq_none := ?current_eq_none }
  case geometry_frozen =>
    intro n id a ha
    obtain ⟨layer, hlayer, ha⟩ := Option.bind_eq_some_iff.1 ha
    exact List.isEmpty_eq_false_iff.1 ((hwell.filled_frozen n layer hlayer).1 id a ha)
  case eq_of_frozen =>
    intro n n' id hsome hsome'
    exact layer_eq_of_isSome hminted (hwell.isSome_of_frozen hsome).2
      (hwell.isSome_of_frozen hsome').2
  case current_eq_none =>
    intro n id hsome
    obtain ⟨hlt, hplace⟩ := hwell.isSome_of_frozen hsome
    -- the layer under construction has the number after the complete ones
    refine Option.not_isSome_iff_eq_none.1 fun hopen => ?_
    rw [← aperture?_nextLayer] at hopen
    have hlayer := layer_eq_of_isSome hminted hplace hopen
    omega

/-- Triangles in two widths, and then, in another colour, a clear one and one in the first width
again. -/
def widthAgain : List Call :=
  paintedWith [1, 2, 1] ++ [.observe ⟨1, 0, 0⟩, .classify [triangle] 3 true ⟨1, 0, 0⟩,
    .classify [triangle] 1 false ⟨1, 0, 0⟩]

theorem agreeing_run_widthAgain :
    minted 0 widthAgain ≤ 2 ^ 32 - 1 ∧ ((new 0).run widthAgain).Agreeing ∧
      ((new 0).run widthAgain).widthIds = [(100000, "3")] ∧
      (∃ a, ((new 0).run widthAgain).current.get? "3" = some a ∧ widthKey a.size = 100000) ∧
      (((new 0).run widthAgain).frozen.aperture? 1 "1").isSome = true ∧
      ((new 0).run widthAgain).current.get? "1" = none := by
  have hminted : minted 0 widthAgain ≤ 2 ^ 32 - 1 := by decide +kernel
  have hagreeing := agreeing_run 0 widthAgain hminted
  have hfrozen : (((new 0).run widthAgain).frozen.aperture? 1 "1").isSome = true := by
    decide +kernel
  exact ⟨hminted, hagreeing, by decide +kernel,
    (hagreeing.lookup_eq_some_iff _ _).1 (by decide +kernel), hfrozen,
    hagreeing.current_eq_none 1 "1" hfrozen⟩

end Artwork.LayerBuilder
