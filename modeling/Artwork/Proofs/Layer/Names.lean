import Artwork.Proofs.Layer.Deposits
import Mathlib

/-!
**Names of apertures.**

The counter goes around the numbers of 32 bits and leaves out zero, so there is a cycle of `2 ^ 32 -
1` names.  As long as no more names are minted than the cycle has, all of them differ, and no
aperture takes the place of another.

Main definitions:

* `cyclePlace`, `nthName`, `counterAfter` — the cycle of names, and the counter after so many.

Main results:

* `nthName_ne` — within one cycle **no name comes twice**;
* `LayerBuilder.nextId_run`, `LayerBuilder.exists_nthName_of_mem_deposits` — the names that a run
  mints are the next ones of the cycle;
* `LayerBuilder.aperture?_eq_none_of_isNew` — a new aperture takes the place of no other.
-/

set_option relaxedAutoImplicit false
set_option autoImplicit false

namespace Artwork

/-! ### The cycle of names -/

/-- How many names there are: all numbers of 32 bits but zero. -/
def nameCount : Nat :=
  2 ^ 32 - 1

/-- The place in the cycle of the name that the counter mints next. -/
def cyclePlace (next : UInt32) : Nat :=
  next.toNat - 1

/-- The name that is minted after `k` others, beginning with the counter `start`. -/
def nthName (start : UInt32) (k : Nat) : String :=
  toString ((cyclePlace start + k) % nameCount + 1)

/-- The counter after `k` names were minted. -/
def counterAfter (start : UInt32) : Nat → UInt32
  | 0 => start
  | k + 1 => (mintId (counterAfter start k)).2

theorem cyclePlace_lt (next : UInt32) : cyclePlace next < nameCount := by
  have hlt := next.toNat_lt
  unfold cyclePlace nameCount
  omega

theorem toString_eq_clearId_iff (next : UInt32) :
    toString next.toNat = clearId ↔ next.toNat = 0 := by
  have hzero : clearId = toString 0 := by decide
  rw [hzero]
  exact Nat.repr_inj

theorem mintId_fst (next : UInt32) : (mintId next).1 = toString (cyclePlace next + 1) := by
  unfold mintId cyclePlace
  dsimp only
  split
  · next hclear =>
      have hzero := (toString_eq_clearId_iff next).1 hclear
      have hone : (next + 1).toNat = next.toNat - 1 + 1 := by
        rw [UInt32.toNat_add, hzero]
        rfl
      rw [hone]
  · next hclear =>
      have hpos : next.toNat ≠ 0 := fun hzero => hclear ((toString_eq_clearId_iff next).2 hzero)
      rw [show next.toNat - 1 + 1 = next.toNat by omega]

theorem cyclePlace_mintId (next : UInt32) :
    cyclePlace (mintId next).2 = (cyclePlace next + 1) % nameCount := by
  have hlt := next.toNat_lt
  unfold mintId cyclePlace nameCount
  dsimp only
  split
  · next hclear =>
      have hzero := (toString_eq_clearId_iff next).1 hclear
      rw [UInt32.toNat_add, hzero]
      rfl
  · next hclear =>
      -- the last number is followed by zero, which stands for the name after it
      have hpos : next.toNat ≠ 0 := fun hzero => hclear ((toString_eq_clearId_iff next).2 hzero)
      have hadd : (next + 1).toNat = (next.toNat + 1) % 2 ^ 32 := UInt32.toNat_add ..
      rw [hadd]
      omega

theorem cyclePlace_counterAfter (start : UInt32) (k : Nat) :
    cyclePlace (counterAfter start k) = (cyclePlace start + k) % nameCount := by
  induction k with
  | zero => exact (Nat.mod_eq_of_lt (cyclePlace_lt start)).symm
  | succ k ih =>
      rw [counterAfter, cyclePlace_mintId, ih, Nat.mod_add_mod]
      rfl

/-- The counter mints the names in the order of the cycle. -/
theorem mintId_counterAfter (start : UInt32) (k : Nat) :
    (mintId (counterAfter start k)).1 = nthName start k := by
  rw [mintId_fst, cyclePlace_counterAfter, nthName]

theorem counterAfter_add (start : UInt32) (j k : Nat) :
    counterAfter start (j + k) = counterAfter (counterAfter start j) k := by
  induction k with
  | zero => rfl
  | succ k ih => rw [← Nat.add_assoc, counterAfter, ih, counterAfter]

/-- Within one cycle **no name comes twice**. -/
theorem nthName_ne (start : UInt32) {j k : Nat} (hjk : j < k) (hk : k < nameCount) :
    nthName start j ≠ nthName start k := by
  intro heq
  have hsame := Nat.succ.inj (Nat.repr_inj.1 heq)
  have hpos : 0 < nameCount := by decide
  -- two places in the cycle are equal only if a whole cycle lies between them
  have hmod : j ≡ k [MOD nameCount] := Nat.ModEq.add_left_cancel' (cyclePlace start) hsame
  rw [Nat.ModEq, Nat.mod_eq_of_lt (by omega), Nat.mod_eq_of_lt hk] at hmod
  omega

namespace LayerBuilder

/-! ### The names that a run mints -/

variable {b : LayerBuilder}

theorem nextId_readyFor (b : LayerBuilder) (color : Color Float) :
    (b.readyFor color).nextId = b.nextId := by
  unfold readyFor
  dsimp only
  split
  · unfold rollOver
    dsimp only
    split <;> rfl
  · rfl

theorem nextId_put (b : LayerBuilder) (size : Float) (entries : List Entry) :
    (b.put size entries).nextId = if b.isNew size then (mintId b.nextId).2 else b.nextId := by
  cases h : b.isNew size with
  | true =>
      rw [put_of_isNew entries h]
      rfl
  | false =>
      rw [put_of_not_isNew entries h]
      rfl

/-- A call mints a name if it makes an aperture. -/
theorem nextId_call (b : LayerBuilder) (c : Call) :
    (b.call c).nextId = counterAfter b.nextId ((b.depositsOf c).countP Deposit.isNew) := by
  cases c with
  | observe color => rfl
  | classify batch width isClear color =>
      simp only [call]
      cases hbatch : batch.isEmpty with
      | true =>
          rw [classify_of_isEmpty hbatch]
          cases isClear <;> simp [depositsOf, hbatch, counterAfter]
      | false =>
          cases isClear with
          | true =>
              rw [classify_clear hbatch]
              rfl
          | false =>
              rw [classify_solid hbatch, nextId_put, nextId_readyFor]
              simp only [depositsOf, hbatch, Bool.false_eq_true, if_false, List.countP_singleton,
                deposit, depositIn]
              split
              · rfl
              · rfl

/-- A run mints **one name for each aperture** that it makes. -/
theorem nextId_run (b : LayerBuilder) (calls : List Call) :
    (b.run calls).nextId = counterAfter b.nextId ((b.deposits calls).countP Deposit.isNew) := by
  induction calls generalizing b with
  | nil => rfl
  | cons c calls ih =>
      rw [run_cons, ih, nextId_call, deposits_cons, List.countP_append, counterAfter_add]

/-- The name of a new aperture is the next one of the cycle. -/
theorem name_deposit_of_isNew {calls : List Call} {batch : List (Polygon Float)} {width : Float}
    {color : Color Float} (hnew : ((b.run calls).deposit batch width color).isNew = true) :
    ((b.run calls).deposit batch width color).name =
      nthName b.nextId ((b.deposits calls).countP Deposit.isNew) := by
  have hname : ((b.run calls).deposit batch width color).name =
      (mintId ((b.run calls).readyFor color).nextId).1 := nameFor_of_isNew hnew
  rw [hname, nextId_readyFor, nextId_run, mintId_counterAfter]

theorem exists_nthName_of_mem_deposits {calls : List Call} {d : Deposit}
    (hd : d ∈ b.deposits calls) (hnew : d.isNew = true) :
    ∃ k < (b.deposits calls).countP Deposit.isNew, d.name = nthName b.nextId k := by
  obtain ⟨early, batch, width, color, late, rfl, hbatch, rfl⟩ := mem_deposits_iff.1 hd
  refine ⟨_, ?_, name_deposit_of_isNew hnew⟩
  have hone : ((b.run early).depositsOf (.classify batch width false color)).countP Deposit.isNew
      = 1 := by
    simp [depositsOf, hbatch, hnew]
  rw [deposits_append, List.countP_append, deposits_cons, List.countP_append, hone]
  omega

/-! ### New apertures -/

theorem exists_isNew_of_isSome_foldl {ds : List Deposit}
    (h : (ds.foldl Deposit.addTo none).isSome = true) : ∃ d ∈ ds, d.isNew = true := by
  induction ds with
  | nil => cases h
  | cons d ds ih =>
      cases hnew : d.isNew with
      | true => exact ⟨d, List.mem_cons_self .., hnew⟩
      | false =>
          have hnone : Deposit.addTo none d = none := by simp [Deposit.addTo, hnew]
          rw [List.foldl_cons, hnone] at h
          obtain ⟨e, he, henew⟩ := ih h
          exact ⟨e, List.mem_cons_of_mem _ he, henew⟩

/-- An aperture that is there was made by a deposit. -/
theorem exists_isNew_of_isSome_aperture? {startId : UInt32} {calls : List Call} {n : Int}
    {id : String} (h : (((new startId).run calls).aperture? n id).isSome = true) :
    ∃ d ∈ (new startId).deposits calls, d.isNew = true ∧ d.layer = n ∧ d.name = id := by
  rw [(wellFormed_new startId).aperture?_run, aperture?_new] at h
  obtain ⟨d, hd, hnew⟩ := exists_isNew_of_isSome_foldl h
  obtain ⟨hmem, hat⟩ := List.mem_filter.1 hd
  obtain ⟨hn, hid⟩ := Deposit.isAt_iff.1 hat
  exact ⟨d, hmem, hnew, hn, hid⟩

/-- Within one cycle of names a new aperture **takes the place of no other**. -/
theorem aperture?_eq_none_of_isNew {startId : UInt32} {calls : List Call}
    {batch : List (Polygon Float)} {width : Float} {color : Color Float}
    (hcount : ((new startId).deposits calls).countP Deposit.isNew < nameCount)
    (hnew : (((new startId).run calls).deposit batch width color).isNew = true) (n : Int) :
    ((new startId).run calls).aperture? n
      (((new startId).run calls).deposit batch width color).name = none := by
  refine Option.not_isSome_iff_eq_none.1 fun hsome => ?_
  obtain ⟨d, hd, hdnew, -, hname⟩ := exists_isNew_of_isSome_aperture? hsome
  obtain ⟨k, hk, hdname⟩ := exists_nthName_of_mem_deposits hd hdnew
  rw [name_deposit_of_isNew hnew, hdname] at hname
  exact nthName_ne _ hk hcount hname

end LayerBuilder

end Artwork
