import Artwork.Table

/-!
**What is found in a table.**

The view of a table is `Table.get?`.  Each operation is described by what is found afterwards, so
that no proof about layers or apertures has to look into the sorted list.

Main results:

* `Table.get?_insert_self`, `Table.get?_insert_of_ne`, `Table.get?_modify_self` — one entry;
* `Table.get?_map`, `Table.get?_filter` — all entries at once;
* `Table.isEmpty_iff`, `Table.exists_get?_of_not_isEmpty`, `Table.mem_values_iff` — emptiness and
  values by what is found;
* `Table.nodup_keys` — a key occurs once.
-/

set_option relaxedAutoImplicit false
set_option autoImplicit false

namespace Artwork.Table

variable {κ ν ω : Type} [Key κ]

@[simp] theorem sameKey_self (k : κ) : sameKey k k = true := sameKey_iff.2 rfl

theorem sameKey_of_ne {k k' : κ} (h : k ≠ k') : sameKey k k' = false := by
  rw [← Bool.not_eq_true, sameKey_iff]
  exact h

@[simp] theorem get?_empty (k : κ) : (empty : Table κ ν).get? k = none := rfl

/-! ### One entry -/

@[simp] theorem get?_insert_self (t : Table κ ν) (k : κ) (v : ν) :
    (t.insert k v).get? k = some v := by
  rw [get?_insert, if_pos (sameKey_self k)]

theorem get?_insert_of_ne (t : Table κ ν) {k k' : κ} (v : ν) (h : k ≠ k') :
    (t.insert k v).get? k' = t.get? k' := by
  rw [get?_insert, if_neg (by simp [sameKey_of_ne h])]

theorem get?_modify_self (t : Table κ ν) (k : κ) (f : ν → ν) :
    (t.modify k f).get? k = (t.get? k).map f := by
  apply Option.ext
  intro w
  rw [get?_eq_some_iff, Option.map_eq_some_iff]
  simp only [modify, List.mem_map, Prod.exists]
  constructor
  · rintro ⟨k₀, v₀, hmem, heq⟩
    by_cases hk : k₀ = k
    · subst hk
      exact ⟨v₀, get?_eq_some_iff.2 hmem, by simpa using heq⟩
    · exact absurd (by simpa [sameKey_of_ne hk] using heq : k₀ = k ∧ v₀ = w).1 hk
  · rintro ⟨v, hv, rfl⟩
    exact ⟨k, v, get?_eq_some_iff.1 hv, by simp⟩

theorem get?_modify_of_ne (t : Table κ ν) {k k' : κ} (f : ν → ν) (h : k ≠ k') :
    (t.modify k f).get? k' = t.get? k' := by
  apply Option.ext
  intro w
  rw [get?_eq_some_iff, get?_eq_some_iff]
  simp only [modify, List.mem_map, Prod.exists]
  constructor
  · rintro ⟨k₀, v₀, hmem, heq⟩
    by_cases hk : k₀ = k
    · subst hk
      exact absurd (by simpa using heq : k₀ = k' ∧ f v₀ = w).1 h
    · obtain ⟨rfl, rfl⟩ : k₀ = k' ∧ v₀ = w := by simpa [sameKey_of_ne hk] using heq
      exact hmem
  · intro hmem
    exact ⟨k', w, hmem, by simp [sameKey_of_ne (Ne.symm h)]⟩

/-! ### All entries -/

theorem get?_map (t : Table κ ν) (f : κ → ν → ω) (k : κ) :
    (t.map f).get? k = (t.get? k).map (f k) := by
  apply Option.ext
  intro w
  rw [get?_eq_some_iff, Option.map_eq_some_iff]
  simp only [map, List.mem_map, Prod.exists, Prod.mk.injEq]
  constructor
  · rintro ⟨k, v, hmem, rfl, rfl⟩
    exact ⟨v, get?_eq_some_iff.2 hmem, rfl⟩
  · rintro ⟨v, hv, rfl⟩
    exact ⟨k, v, get?_eq_some_iff.1 hv, rfl, rfl⟩

theorem get?_filter (t : Table κ ν) (p : ν → Bool) (k : κ) :
    (t.filter p).get? k = (t.get? k).filter p := by
  apply Option.ext
  intro w
  rw [get?_eq_some_iff, Option.filter_eq_some_iff, get?_eq_some_iff]
  simp [filter]

/-- A table is empty exactly if **nothing is found** in it. -/
theorem isEmpty_iff {t : Table κ ν} : t.isEmpty = true ↔ ∀ k, t.get? k = none := by
  rw [isEmpty, List.isEmpty_iff]
  constructor
  · intro h k
    rw [Option.eq_none_iff_forall_not_mem]
    intro v hv
    have hmem := get?_eq_some_iff.1 hv
    simp [h] at hmem
  · intro h
    rw [List.eq_nil_iff_forall_not_mem]
    rintro ⟨k, v⟩ hmem
    rw [← get?_eq_some_iff, h k] at hmem
    cases hmem

theorem values_filter (t : Table κ ν) (p : ν → Bool) : (t.filter p).values = t.values.filter p :=
  List.filter_map.symm

/-- A filtered table is empty exactly if no value passes the test. -/
theorem isEmpty_filter (t : Table κ ν) (p : ν → Bool) :
    (t.filter p).isEmpty = (t.values.filter p).isEmpty := by
  rw [← values_filter]
  exact List.isEmpty_map.symm

/-- In a table that is not empty **something is found**. -/
theorem exists_get?_of_not_isEmpty {t : Table κ ν} (h : t.isEmpty = false) :
    ∃ k v, t.get? k = some v := by
  obtain ⟨⟨k, v⟩, hmem⟩ := List.exists_mem_of_ne_nil _ (List.isEmpty_eq_false_iff.1 h)
  exact ⟨k, v, get?_eq_some_iff.2 hmem⟩

/-- The values are what is found **under some key**. -/
theorem mem_values_iff {t : Table κ ν} {v : ν} : v ∈ t.values ↔ ∃ k, t.get? k = some v := by
  simp only [values, List.mem_map, Prod.exists, exists_eq_right, get?_eq_some_iff]

/-- Each key **occurs once**. -/
theorem nodup_keys (t : Table κ ν) : (t.entries.map Prod.fst).Nodup := by
  rw [List.nodup_iff_pairwise_ne, List.pairwise_map]
  refine t.sorted.imp fun {a b} h heq => ?_
  rw [heq, Key.before_irrefl] at h
  cases h

end Artwork.Table
