import Artwork.Proofs.Layer.Grouping

/-!
**The names of the apertures in the layout.**

Minting a name goes round by round: the counter gives its number and goes on by one, and if the
number is the one of the clear aperture, there is another round.  It never takes a third.  So the
apertures of a run are named by the numbers from the first one on, around the numbers of 32 bits and
past zero, in the order in which they are used for the first time, whatever layers are completed in
between.

Main definitions:

* `Mints` — minting as a loop;
* `numbersFrom`, `firstNames` — the numbers from the first one on without zero, and the names;
* `Layout.ordinaryNames` — the names of all apertures in the ordinary layers;
* `LayerBuilder.Naming` — **what names the apertures of a run have**.

Main results:

* `mints_iff` — the loop ends after one round or two, with the name that is minted;
* `firstNames_eq` — the first names are the beginning of the cycle;
* `LayerBuilder.perm_ordinaryPlaces` — the places in the ordinary layers are those of the new
  apertures;
* `LayerBuilder.naming_finish_run` — **the names of the apertures of a run**.
-/

set_option relaxedAutoImplicit false
set_option autoImplicit false

namespace Artwork

/-! ### The loop that mints a name -/

/-- Minting a name **round by round**, with the number of rounds: the counter gives its number and
goes on by one.  The number of the clear aperture is passed over. -/
inductive Mints : UInt32 → Nat → String × UInt32 → Prop
  | name {next : UInt32} : toString next.toNat ≠ clearId →
      Mints next 1 (toString next.toNat, next + 1)
  | pass {next : UInt32} {rounds : Nat} {minted : String × UInt32} :
      toString next.toNat = clearId → Mints (next + 1) rounds minted →
      Mints next (rounds + 1) minted

theorem toNat_add_one_of_eq_zero {next : UInt32} (h : next.toNat = 0) : (next + 1).toNat = 1 := by
  rw [UInt32.toNat_add, h]
  rfl

/-- The loop ends after **one round or two**, with the name that is minted. -/
theorem mints_iff {next : UInt32} {rounds : Nat} {minted : String × UInt32} :
    Mints next rounds minted ↔
      minted = mintId next ∧ rounds = if next.toNat = 0 then 2 else 1 := by
  constructor
  · intro h
    cases h with
    | name hname =>
        rw [mintId, if_neg hname, if_neg (mt (toString_eq_clearId_iff next).2 hname)]
        exact ⟨rfl, rfl⟩
    | pass hpass h =>
        have hzero := (toString_eq_clearId_iff next).1 hpass
        rw [mintId, if_pos hpass, if_pos hzero]
        -- the number after zero is one, which is taken
        cases h with
        | name => exact ⟨by rw [show next + 1 + 1 = next + 2 by rw [UInt32.add_assoc]; rfl], rfl⟩
        | pass hpass' =>
            have hone := (toString_eq_clearId_iff (next + 1)).1 hpass'
            rw [toNat_add_one_of_eq_zero hzero] at hone
            cases hone
  · rintro ⟨rfl, rfl⟩
    split
    · next hzero =>
        have hpass := (toString_eq_clearId_iff next).2 hzero
        have hname : toString (next + 1).toNat ≠ clearId := by
          rw [Ne, toString_eq_clearId_iff, toNat_add_one_of_eq_zero hzero]
          decide
        rw [mintId, if_pos hpass, show next + 2 = next + 1 + 1 by rw [UInt32.add_assoc]; rfl]
        exact .pass hpass (.name hname)
    · next hne =>
        have hname := mt (toString_eq_clearId_iff next).1 hne
        rw [mintId, if_neg hname]
        exact .name hname

/-! ### The first names -/

/-- The first `k` numbers from `start` on, around the numbers of 32 bits, without zero. -/
def numbersFrom (start : UInt32) (k : Nat) : List Nat :=
  (((List.range (k + 1)).map fun j => (start.toNat + j) % 2 ^ 32).filter (· ≠ 0)).take k

/-- The first `k` names: the decimal texts of the numbers. -/
def firstNames (start : UInt32) (k : Nat) : List String :=
  (numbersFrom start k).map toString

/-- Where zero is among the numbers from `start` on. -/
def zeroPlace (start : UInt32) : Nat :=
  (2 ^ 32 - start.toNat) % 2 ^ 32

/-- The number in a place, as one of the cycle of names: after zero, the places are one behind. -/
theorem number_eq (start : UInt32) {j : Nat} (hj : j < 2 ^ 32) :
    (start.toNat + j) % 2 ^ 32 =
      if j = zeroPlace start then 0
      else (cyclePlace start + if zeroPlace start < j then j - 1 else j) % nameCount + 1 := by
  have hlt := start.toNat_lt
  unfold zeroPlace cyclePlace nameCount
  split
  · omega
  · split <;> omega

/-- Up to a whole round of numbers, leaving zero out takes one number away, if it is there. -/
theorem filter_numbers (start : UInt32) {k : Nat} (hk : k ≤ 2 ^ 32) :
    ((List.range k).map fun j => (start.toNat + j) % 2 ^ 32).filter (· ≠ 0) =
      (List.range (if zeroPlace start < k then k - 1 else k)).map fun i =>
        (cyclePlace start + i) % nameCount + 1 := by
  induction k with
  | zero => rfl
  | succ k ih =>
      rw [List.range_succ, List.map_append, List.filter_append, ih (by omega), List.map_singleton,
        List.filter_singleton, number_eq start (by omega)]
      rcases Nat.lt_trichotomy (zeroPlace start) k with hbefore | rfl | hafter
      · obtain ⟨i, rfl⟩ : ∃ i, k = i + 1 := ⟨k - 1, by omega⟩
        rw [if_pos hbefore, if_neg (by omega), if_pos (by omega), Nat.add_sub_cancel,
          Nat.add_sub_cancel, List.range_succ, List.map_append]
        rfl
      · rw [if_neg (Nat.lt_irrefl _), if_pos rfl, if_pos (Nat.lt_succ_self _), Nat.add_sub_cancel]
        exact List.append_nil _
      · rw [if_neg (by omega), if_neg (by omega), if_neg (by omega), List.range_succ,
          List.map_append]
        rfl

/-- The first names are **the beginning of the cycle**. -/
theorem firstNames_eq (start : UInt32) {k : Nat} (hk : k ≤ nameCount) :
    firstNames start k = (List.range k).map (nthName start) := by
  have hcount : k + 1 ≤ 2 ^ 32 := by
    unfold nameCount at hk
    omega
  have henough : min k (if zeroPlace start < k + 1 then k + 1 - 1 else k + 1) = k := by
    split <;> omega
  rw [firstNames, numbersFrom, filter_numbers start hcount, ← List.map_take, List.take_range,
    henough, List.map_map]
  rfl

/-- Within one cycle the first names are all different. -/
theorem nodup_firstNames (start : UInt32) {k : Nat} (hk : k ≤ nameCount) :
    (firstNames start k).Nodup := by
  rw [firstNames_eq start hk]
  refine List.Nodup.map_on (fun i hi j hj heq => ?_) List.nodup_range
  rw [List.mem_range] at hi hj
  rcases Nat.lt_trichotomy i j with hij | hij | hij
  · exact absurd heq (nthName_ne start hij (by omega))
  · exact hij
  · exact absurd heq.symm (nthName_ne start hij (by omega))

/-- None of the first names is the one of the clear aperture. -/
theorem clearId_notMem_firstNames (start : UInt32) (k : Nat) : clearId ∉ firstNames start k := by
  intro hmem
  obtain ⟨n, hn, hzero⟩ := List.mem_map.1 hmem
  have hne := (List.mem_filter.1 (List.mem_of_mem_take hn)).2
  rw [show clearId = toString 0 by decide] at hzero
  rw [Nat.repr_inj.1 hzero] at hne
  cases hne

/-- The names of the apertures in the ordinary layers, layer by layer. -/
def Layout.ordinaryNames (layout : Layout) : List String :=
  (layout.places.filter (·.1 ≠ clearLayer)).map (·.2)

namespace LayerBuilder

/-- How many names a run mints. -/
def minted (startId : UInt32) (calls : List Call) : Nat :=
  ((new startId).deposits calls).countP Deposit.isNew

/-! ### The order of minting -/

variable {startId : UInt32} {calls : List Call}

/-- New apertures get the names in the order of the cycle. -/
theorem map_name_filter_isNew (startId : UInt32) (calls : List Call) :
    (((new startId).deposits calls).filter Deposit.isNew).map Deposit.name =
      (List.range (minted startId calls)).map (nthName startId) := by
  unfold minted
  induction calls using List.reverseRecOn with
  | nil => rfl
  | append_singleton calls c ih =>
      rw [deposits_append, deposits_cons, deposits_nil, List.append_nil, List.filter_append,
        List.map_append, ih, List.countP_append]
      rcases depositsOf_cases ((new startId).run calls) c with hnone | ⟨batch, width, color, hone⟩
      · rw [hnone]
        exact List.append_nil _
      · rw [hone, List.filter_singleton, List.countP_singleton]
        cases hnew : (((new startId).run calls).deposit batch width color).isNew with
        | false => exact List.append_nil _
        | true =>
            have hname := name_deposit_of_isNew hnew
            rw [if_pos rfl, List.range_succ, List.map_append, List.map_singleton]
            exact congrArg _ (congrArg (fun name => [name]) hname)

/-- Within one cycle, the name of a new aperture has not been used. -/
theorem name_notMem_of_isNew {batch : List (Polygon Float)} {width : Float} {color : Color Float}
    (hcount : minted startId calls < nameCount)
    (hnew : (((new startId).run calls).deposit batch width color).isNew = true) :
    (((new startId).run calls).deposit batch width color).name ∉
      ((new startId).deposits calls).map Deposit.name := by
  intro hmem
  obtain ⟨d, hd, hname⟩ := List.mem_map.1 hmem
  obtain ⟨e, he, hfounds⟩ := exists_founder hd
  obtain ⟨k, hk, hfirst⟩ := exists_nthName_of_mem_deposits he hfounds.isNew
  rw [← hfounds.name_eq, hfirst, name_deposit_of_isNew hnew] at hname
  exact nthName_ne _ hk hcount hname

/-- A deposit that makes no aperture has a name that is known. -/
theorem name_mem_of_not_isNew {batch : List (Polygon Float)} {width : Float} {color : Color Float}
    (hold : (((new startId).run calls).deposit batch width color).isNew = false) :
    (((new startId).run calls).deposit batch width color).name ∈
      ((new startId).deposits calls).map Deposit.name := by
  obtain ⟨d, hd, -, -, hname⟩ := exists_isNew_of_isSome_aperture?
    ((wellFormed_run_new startId calls).isSome_aperture?_deposit hold)
  exact List.mem_map.2 ⟨d, hd, hname⟩

/-- With repeats erased, the last of several names is left only if it is not among the others. -/
theorem eraseDups_concat (names : List String) (name : String) :
    (names ++ [name]).eraseDups =
      if name ∈ names then names.eraseDups else names.eraseDups ++ [name] := by
  rw [List.eraseDups_append, List.cons_removeAll, List.nil_removeAll]
  split
  · next hnew =>
      rw [if_neg (by simpa using hnew)]
      rfl
  · next hold =>
      rw [if_pos (by simpa using hold)]
      exact List.append_nil _

/-- The names in the order of their first use are those of the new apertures. -/
theorem eraseDups_map_name (hcount : minted startId calls ≤ nameCount) :
    (((new startId).deposits calls).map Deposit.name).eraseDups =
      (((new startId).deposits calls).filter Deposit.isNew).map Deposit.name := by
  unfold minted at hcount
  induction calls using List.reverseRecOn with
  | nil => rfl
  | append_singleton calls c ih =>
      rw [deposits_append, deposits_cons, deposits_nil, List.append_nil] at hcount ⊢
      rw [List.countP_append] at hcount
      rcases depositsOf_cases ((new startId).run calls) c with hnone | ⟨batch, width, color, hone⟩
      · rw [hnone, List.append_nil]
        exact ih (by omega)
      · rw [hone, List.countP_singleton] at hcount
        rw [hone, List.map_append, List.map_singleton, eraseDups_concat, ih (by omega),
          List.filter_append, List.map_append, List.filter_singleton]
        cases hnew : (((new startId).run calls).deposit batch width color).isNew with
        | false =>
            rw [if_pos (name_mem_of_not_isNew hnew)]
            exact (List.append_nil _).symm
        | true =>
            rw [if_pos hnew] at hcount
            rw [if_neg (name_notMem_of_isNew (by unfold minted; omega) hnew)]
            rfl

/-! ### The names in the layout -/

/-- Within one cycle, the places in the ordinary layers are **those of the new apertures**. -/
theorem perm_ordinaryPlaces (hcount : minted startId calls ≤ nameCount) :
    (((new startId).run calls).finish.places.filter (·.1 ≠ clearLayer)).Perm
      ((((new startId).deposits calls).filter Deposit.isNew).map fun d => (d.layer, d.name)) := by
  have hnames := map_name_filter_isNew startId calls
  rw [← firstNames_eq startId hcount] at hnames
  have hnodup : ((((new startId).deposits calls).filter Deposit.isNew).map
      fun d => (d.layer, d.name)).Nodup := by
    refine List.Nodup.of_map Prod.snd ?_
    rw [List.map_map]
    exact hnames ▸ nodup_firstNames startId hcount
  refine (List.perm_ext_iff_of_nodup ((Layout.nodup_places _).filter _) hnodup).2 ?_
  rintro ⟨n, id⟩
  rw [List.mem_filter, Layout.mem_places_iff, List.mem_map]
  constructor
  · rintro ⟨hsome, hn⟩
    rw [(wellFormed_run_new startId calls).aperture?_finish (of_decide_eq_true hn)] at hsome
    obtain ⟨d, hd, hnew, rfl, rfl⟩ := exists_isNew_of_isSome_aperture? hsome
    exact ⟨d, List.mem_filter.2 ⟨hd, hnew⟩, rfl⟩
  · rintro ⟨d, hd, heq⟩
    obtain ⟨rfl, rfl⟩ := Prod.mk.inj heq
    obtain ⟨hd, hnew⟩ := List.mem_filter.1 hd
    obtain ⟨a, ha, -⟩ := size_aperture?_of_isNew hcount hd hnew
    have hpos := (layer_mem_deposits (wellFormed_new startId) hd).1
    refine ⟨Option.isSome_iff_exists.2 ⟨a, ha⟩, decide_eq_true ?_⟩
    exact Int.ne_of_gt (Int.lt_of_lt_of_le Int.zero_lt_one hpos)

/-- **What names the apertures of a run have.** -/
structure Naming (startId : UInt32) (calls : List Call) (layout : Layout) : Prop where
  /-- What has been put into an ordinary layer is in the aperture of its name. -/
  geometry_eq : ∀ n, n ≠ clearLayer → ∀ id,
    layout.geometry n id = gathered ((new startId).deposits calls) n id
  /-- The names, in the order of their first use, are the first numbers from `startId` on. -/
  eraseDups_names : (((new startId).deposits calls).map Deposit.name).eraseDups =
    firstNames startId (minted startId calls)
  /-- Each of them is the name of one aperture in the ordinary layers, -/
  perm_names : layout.ordinaryNames.Perm (firstNames startId (minted startId calls))
  nodup_names : layout.ordinaryNames.Nodup
  /-- and none is the name of the clear aperture. -/
  clearId_notMem : clearId ∉ layout.ordinaryNames
  /-- At any time the counter depends on how many names were minted, and completing a layer does
  not change it. -/
  nextId_eq : ∀ early later, calls = early ++ later →
    ((new startId).run early).nextId = counterAfter startId (minted startId early) ∧
      ((new startId).run early).rollOver.nextId = ((new startId).run early).nextId

/-- Completing a layer does not touch the counter. -/
theorem nextId_rollOver (b : LayerBuilder) : b.rollOver.nextId = b.nextId := by
  unfold rollOver
  dsimp only
  split <;> rfl

/-- Within one cycle of names, the apertures of the ordinary layers have **the first names, each one
once**, and minting any name takes one round or two. -/
theorem naming_finish_run (startId : UInt32) (calls : List Call)
    (hminted : minted startId calls ≤ 2 ^ 32 - 1) :
    Naming startId calls ((new startId).run calls).finish ∧
      ∀ next, (∃ rounds minted, Mints next rounds minted) ∧
        ∀ rounds minted, Mints next rounds minted → rounds ≤ 2 ∧ minted = mintId next := by
  refine ⟨?_, fun next => ⟨⟨_, _, mints_iff.2 ⟨rfl, rfl⟩⟩, fun rounds minted h => ?_⟩⟩
  · have hnames := map_name_filter_isNew startId calls
    rw [← firstNames_eq startId hminted] at hnames
    have hperm : ((new startId).run calls).finish.ordinaryNames.Perm
        (firstNames startId (minted startId calls)) := by
      have hplaces := (perm_ordinaryPlaces hminted).map Prod.snd
      rw [List.map_map] at hplaces
      exact hnames ▸ hplaces
    exact
      { geometry_eq := fun n hn id => geometry_finish_run hminted hn id
        eraseDups_names := (eraseDups_map_name hminted).trans hnames
        perm_names := hperm
        nodup_names := hperm.nodup_iff.2 (nodup_firstNames startId hminted)
        clearId_notMem := fun hmem => clearId_notMem_firstNames _ _ (hperm.mem_iff.1 hmem)
        nextId_eq := fun early _ _ => ⟨nextId_run _ early, nextId_rollOver _⟩ }
  · obtain ⟨rfl, rfl⟩ := mints_iff.1 h
    exact ⟨by split <;> decide, rfl⟩

/-- Triangles in two widths, and then in the first one in another colour. -/
def aroundZero : List Call :=
  paintedWith [1, 2] ++ [.classify [triangle] 1 false ⟨1, 0, 0⟩]

theorem naming_finish_run_aroundZero :
    minted 4294967295 aroundZero ≤ 2 ^ 32 - 1 ∧
      ((new 4294967295).deposits aroundZero).map (fun d => (d.layer, d.name)) =
        [(1, "4294967295"), (1, "1"), (2, "2")] ∧
      Naming 4294967295 aroundZero ((new 4294967295).run aroundZero).finish ∧
      Mints 0 2 ("1", 2) := by
  refine ⟨by decide +kernel, by decide +kernel,
    (naming_finish_run 4294967295 aroundZero (by decide +kernel)).1, ?_⟩
  obtain ⟨⟨rounds, minted, h⟩, hunique⟩ :=
    (naming_finish_run 4294967295 aroundZero (by decide +kernel)).2 0
  have hrounds := (mints_iff.1 h).2
  rw [(hunique rounds minted h).2, hrounds] at h
  exact h

end LayerBuilder

end Artwork
