import Artwork.Proofs.Layer.Interference

/-!
**Where solid batches are put.**

Each solid batch of a run is *deposited* in one aperture of one layer.  The deposits of a run, in
the order of painting, say everything about its ordinary layers: an aperture holds what was
deposited in it, in this order, since the last time that it was made.

Main definitions:

* `Deposit`, `LayerBuilder.deposits` — **the solid batches of a run in their places**;
* `Deposit.addTo`, `stored` — what an aperture holds after deposits;
* `LayerBuilder.aperture?` — the apertures of the layers completed and under construction.

Main results:

* `LayerBuilder.mem_deposits_iff` — a deposit is made by one solid batch, after the calls before it;
* `LayerBuilder.WellFormed.aperture?_run` — **the apertures after a run**;
* `LayerBuilder.aperture?_finish_run` — the apertures of the finished layout;
* `LayerBuilder.flatMap_entries_deposits` — every solid entry is deposited once, in order.
-/

set_option relaxedAutoImplicit false
set_option autoImplicit false

namespace Artwork

/-- A solid batch **in its place**. -/
structure Deposit where
  /-- The number of its layer. -/
  layer : Int
  /-- The name of its aperture. -/
  name : String
  /-- The aperture was made for this batch, and its name was minted. -/
  isNew : Bool
  /-- The rounded width. -/
  size : Float
  entries : List Entry
  deriving Repr, DecidableEq

namespace Deposit

/-- The deposit is in this aperture of this layer. -/
def isAt (n : Int) (id : String) (d : Deposit) : Bool :=
  d.layer == n && d.name == id

theorem isAt_iff {n : Int} {id : String} {d : Deposit} :
    d.isAt n id = true ↔ d.layer = n ∧ d.name = id := by
  simp [isAt]

/-- What its aperture holds after the deposit: an aperture that is made anew takes the place of
one of the same name. -/
def addTo (held : Option Aperture) (d : Deposit) : Option Aperture :=
  if d.isNew then some ⟨d.size, d.entries⟩ else held.map (·.append d.entries)

theorem isSome_foldl_addTo (ds : List Deposit) {held : Option Aperture} (h : held.isSome = true) :
    (ds.foldl addTo held).isSome = true := by
  induction ds generalizing held with
  | nil => exact h
  | cons d ds ih =>
      refine ih ?_
      unfold addTo
      split
      · rfl
      · rwa [Option.isSome_map]

end Deposit

/-- What deposits leave in an aperture that was not there before. -/
def stored (ds : List Deposit) (n : Int) (id : String) : Option Aperture :=
  (ds.filter (Deposit.isAt n id)).foldl Deposit.addTo none

namespace LayerBuilder

/-! ### The deposits of a run -/

/-- The deposit of entries that are put into the layer under construction. -/
def depositIn (b : LayerBuilder) (size : Float) (entries : List Entry) : Deposit :=
  { layer := b.nextLayer
    name := b.nameFor size
    isNew := b.isNew size
    size := size
    entries := entries }

/-- The deposit of a solid batch. -/
def deposit (b : LayerBuilder) (batch : List (Polygon Float)) (width : Float)
    (color : Color Float) : Deposit :=
  (b.readyFor color).depositIn (roundWidth width) (batch.map .ofSolid)

/-- The deposit that a call makes, if it is a solid batch. -/
def depositsOf (b : LayerBuilder) : Call → List Deposit
  | .classify batch width false color =>
    if batch.isEmpty then [] else [b.deposit batch width color]
  | _ => []

/-- The **deposits of a run**, in the order of its calls. -/
def deposits (b : LayerBuilder) : List Call → List Deposit
  | [] => []
  | c :: calls => b.depositsOf c ++ (b.call c).deposits calls

@[simp] theorem deposits_nil (b : LayerBuilder) : b.deposits [] = [] := rfl

theorem deposits_cons (b : LayerBuilder) (c : Call) (calls : List Call) :
    b.deposits (c :: calls) = b.depositsOf c ++ (b.call c).deposits calls := rfl

theorem deposits_append (b : LayerBuilder) (calls later : List Call) :
    b.deposits (calls ++ later) = b.deposits calls ++ (b.run calls).deposits later := by
  induction calls generalizing b with
  | nil => rfl
  | cons c calls ih =>
      rw [List.cons_append, deposits_cons, ih, deposits_cons, run_cons, List.append_assoc]

theorem mem_depositsOf_iff {b : LayerBuilder} {c : Call} {d : Deposit} :
    d ∈ b.depositsOf c ↔
      ∃ batch width color, c = .classify batch width false color ∧ batch.isEmpty = false ∧
        d = b.deposit batch width color := by
  constructor
  · intro h
    cases c with
    | observe color => cases h
    | classify batch width isClear color =>
        cases isClear with
        | true => cases h
        | false =>
            simp only [depositsOf] at h
            cases hbatch : batch.isEmpty with
            | true => simp [hbatch] at h
            | false =>
                refine ⟨batch, width, color, rfl, hbatch, ?_⟩
                simpa [hbatch] using h
  · rintro ⟨batch, width, color, rfl, hbatch, rfl⟩
    simp [depositsOf, hbatch]

/-- A deposit is made by **one solid batch**, after the calls before it. -/
theorem mem_deposits_iff {b : LayerBuilder} {calls : List Call} {d : Deposit} :
    d ∈ b.deposits calls ↔
      ∃ before batch width color after,
        calls = before ++ .classify batch width false color :: after ∧ batch.isEmpty = false ∧
          d = (b.run before).deposit batch width color := by
  constructor
  · intro h
    induction calls generalizing b with
    | nil => cases h
    | cons c calls ih =>
        rw [deposits_cons, List.mem_append] at h
        rcases h with h | h
        · obtain ⟨batch, width, color, rfl, hbatch, hd⟩ := mem_depositsOf_iff.1 h
          exact ⟨[], batch, width, color, calls, rfl, hbatch, hd⟩
        · obtain ⟨before, batch, width, color, after, rfl, hbatch, hd⟩ := ih h
          exact ⟨c :: before, batch, width, color, after, rfl, hbatch, hd⟩
  · rintro ⟨before, batch, width, color, after, rfl, hbatch, rfl⟩
    rw [deposits_append, List.mem_append, deposits_cons, List.mem_append]
    exact Or.inr (Or.inl (mem_depositsOf_iff.2 ⟨batch, width, color, rfl, hbatch, rfl⟩))

/-- The entries that a call adds to the ordinary layers. -/
def Call.painted : Call → List Entry
  | classify batch _ false _ => batch.map .ofSolid
  | _ => []

theorem flatMap_entries_depositsOf (b : LayerBuilder) (c : Call) :
    (b.depositsOf c).flatMap Deposit.entries = c.painted := by
  cases c with
  | observe color => rfl
  | classify batch width isClear color =>
      cases isClear with
      | true => rfl
      | false =>
          simp only [depositsOf, Call.painted]
          split
          · next hbatch => simp [List.isEmpty_iff.1 hbatch]
          · simp [deposit, depositIn]

/-- Every solid entry is **deposited once**, in the order of the calls. -/
theorem flatMap_entries_deposits (b : LayerBuilder) (calls : List Call) :
    (b.deposits calls).flatMap Deposit.entries = calls.flatMap Call.painted := by
  induction calls generalizing b with
  | nil => rfl
  | cons c calls ih =>
      rw [deposits_cons, List.flatMap_append, flatMap_entries_depositsOf, ih, List.flatMap_cons]

/-! ### Apertures -/

/-- The aperture of this name in the layer of this number, which may be under construction. -/
def aperture? (b : LayerBuilder) (n : Int) (id : String) : Option Aperture :=
  if n = b.nextLayer then b.current.get? id else b.frozen.aperture? n id

theorem aperture?_new (startId : UInt32) (n : Int) (id : String) :
    (new startId).aperture? n id = none := by
  unfold LayerBuilder.aperture?
  split <;> rfl

/-- Putting entries into the layer under construction changes one aperture. -/
theorem aperture?_put (b : LayerBuilder) (size : Float) (entries : List Entry) (n : Int)
    (id : String) :
    (b.put size entries).aperture? n id =
      ([b.depositIn size entries].filter (Deposit.isAt n id)).foldl Deposit.addTo
        (b.aperture? n id) := by
  unfold LayerBuilder.aperture?
  rw [nextLayer_put, frozen_put]
  by_cases hat : (b.depositIn size entries).isAt n id = true
  · -- the place is that of the entries, whose aperture is made or extended
    obtain ⟨hn, hid⟩ : b.nextLayer = n ∧ b.nameFor size = id := Deposit.isAt_iff.1 hat
    rw [List.filter_cons_of_pos hat, if_pos hn.symm, if_pos hn.symm, ← hid]
    simp only [List.filter_nil, List.foldl_cons, List.foldl_nil, Deposit.addTo, depositIn]
    split
    · next hnew => exact get?_current_put_of_isNew entries hnew
    · next hnew => exact get?_current_put_of_not_isNew entries (by simpa using hnew)
  · rw [List.filter_cons_of_neg hat, List.filter_nil, List.foldl_nil]
    split
    · next hn =>
        refine get?_current_put_of_ne b entries fun hid => hat ?_
        exact Deposit.isAt_iff.2 ⟨hn.symm, hid⟩
    · rfl

namespace WellFormed

variable {b : LayerBuilder}

/-- Completing a layer leaves every aperture where it is. -/
theorem aperture?_rollOver (h : b.WellFormed) (n : Int) (id : String) :
    b.rollOver.aperture? n id = b.aperture? n id := by
  rw [h.rollOver_eq]
  unfold LayerBuilder.aperture? Layout.aperture?
  split
  · next hempty =>
      dsimp only
      split
      · rw [Table.isEmpty_iff.1 hempty id, Table.get?_empty]
      · rfl
  · dsimp only
    -- the layer under construction is looked up among the completed ones from now on
    by_cases hn : n = b.nextLayer
    · rw [if_neg (by omega), if_pos hn, hn, Table.get?_insert_self]
      rfl
    · rw [if_neg hn, Table.get?_insert_of_ne _ _ (Ne.symm hn)]
      split
      · next hnext =>
          rw [h.frozen_of_le (by omega), Table.get?_empty]
          rfl
      · rfl

theorem aperture?_readyFor (h : b.WellFormed) (color : Color Float) (n : Int) (id : String) :
    (b.readyFor color).aperture? n id = b.aperture? n id := by
  unfold LayerBuilder.readyFor
  dsimp only
  split
  · exact (h.observe color).aperture?_rollOver n id
  · rfl

/-- A call changes only the aperture in which it makes a deposit. -/
theorem aperture?_call (h : b.WellFormed) (c : Call) (n : Int) (id : String) :
    (b.call c).aperture? n id =
      ((b.depositsOf c).filter (Deposit.isAt n id)).foldl Deposit.addTo (b.aperture? n id) := by
  cases c with
  | observe color => rfl
  | classify batch width isClear color =>
      simp only [LayerBuilder.call]
      cases hbatch : batch.isEmpty with
      | true =>
          rw [classify_of_isEmpty hbatch]
          cases isClear <;> simp [depositsOf, hbatch]
      | false =>
          cases isClear with
          | true =>
              rw [classify_clear hbatch]
              rfl
          | false =>
              rw [classify_solid hbatch, aperture?_put, h.aperture?_readyFor]
              simp [depositsOf, hbatch, deposit]

/-- **The apertures after a run** hold what its deposits have added to those before. -/
theorem aperture?_run (h : b.WellFormed) (calls : List Call) (n : Int) (id : String) :
    (b.run calls).aperture? n id =
      ((b.deposits calls).filter (Deposit.isAt n id)).foldl Deposit.addTo (b.aperture? n id) := by
  induction calls generalizing b with
  | nil => rfl
  | cons c calls ih =>
      rw [run_cons, ih (h.call c), h.aperture?_call, deposits_cons, List.filter_append,
        List.foldl_append]

/-- In the finished layout every aperture of an ordinary layer is where the builder has it. -/
theorem aperture?_finish (h : b.WellFormed) {n : Int} (hn : n ≠ clearLayer) (id : String) :
    b.finish.aperture? n id = b.aperture? n id := by
  rw [Layout.aperture?, get?_finish_of_ne h hn, ← h.aperture?_rollOver]
  unfold LayerBuilder.aperture?
  split
  · next hlast =>
      have hnone : b.rollOver.frozen.get? n = none := h.rollOver.frozen_of_le (by omega)
      have hempty : b.rollOver.current = .empty := by
        rw [h.rollOver_eq]
        split <;> rfl
      rw [hnone, hempty]
      rfl
  · rfl

end WellFormed

/-- The apertures of the ordinary layers **are the stored deposits**. -/
theorem aperture?_finish_run (startId : UInt32) (calls : List Call) {n : Int} (hn : n ≠ clearLayer)
    (id : String) :
    ((new startId).run calls).finish.aperture? n id =
      stored ((new startId).deposits calls) n id := by
  have h := wellFormed_new startId
  rw [(h.run calls).aperture?_finish hn, h.aperture?_run, aperture?_new, stored]

end LayerBuilder

end Artwork
