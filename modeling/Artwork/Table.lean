/-!
**Tables in the order of their keys.**

A table is a list of keys with values, sorted by key, so that each key occurs once and equal tables
are the same list.

Main definitions:

* `Key` — keys with a strict linear order;
* `Table` — a sorted list of entries;
* `Table.insert`, `Table.get?`, `Table.modify` — entries by key;
* `Table.map`, `Table.filter` — all entries at once.

Main results:

* `Table.get?_insert` — **what is found after an insertion**;
* `Table.get?_eq_some_iff` — looking a key up finds the entry with this key.
-/

set_option relaxedAutoImplicit false
set_option autoImplicit false

namespace Artwork

/-- Keys with a strict linear order. -/
class Key (κ : Type) where
  /-- The order of the keys. -/
  before : κ → κ → Bool
  before_irrefl : ∀ a, before a a = false
  before_trans : ∀ {a b c}, before a b = true → before b c = true → before a c = true
  before_connected : ∀ {a b}, before a b = false → before b a = false → a = b

/-- Whole numbers by size. -/
instance intKey : Key Int where
  before a b := decide (a < b)
  before_irrefl a := by simp
  before_trans h h' := by simp only [decide_eq_true_eq] at *; omega
  before_connected h h' := by simp only [decide_eq_false_iff_not] at *; omega

/-- Texts in the order of their code points: `"10"` comes before `"9"`. -/
instance stringKey : Key String where
  before a b := decide (a < b)
  before_irrefl a := decide_eq_false (String.lt_irrefl a)
  before_trans h h' := by
    simp only [decide_eq_true_eq] at *
    exact String.lt_trans h h'
  before_connected h h' := by
    simp only [decide_eq_false_iff_not] at *
    exact String.le_antisymm (String.not_lt.1 h') (String.not_lt.1 h)

/-- A list of entries, sorted by key. -/
structure Table (κ ν : Type) [Key κ] where
  entries : List (κ × ν)
  sorted : entries.Pairwise fun a b => Key.before a.1 b.1 = true

namespace Table

variable {κ ν ω : Type} [Key κ]

@[ext] theorem ext {s t : Table κ ν} (h : s.entries = t.entries) : s = t := by
  cases s; cases t; simp_all

/-- The table without entries. -/
def empty : Table κ ν :=
  ⟨[], .nil⟩

/-- How many entries there are. -/
def size (t : Table κ ν) : Nat :=
  t.entries.length

/-- There is no entry. -/
def isEmpty (t : Table κ ν) : Bool :=
  t.entries.isEmpty

/-- The values in the order of their keys. -/
def values (t : Table κ ν) : List ν :=
  t.entries.map (·.2)

/-! ### One entry -/

/-- Puts an entry into a sorted list, in place of one with the same key. -/
def insertEntry (k : κ) (v : ν) : List (κ × ν) → List (κ × ν)
  | [] => [(k, v)]
  | e :: es =>
    if Key.before k e.1 then (k, v) :: e :: es
    else if Key.before e.1 k then e :: insertEntry k v es
    else (k, v) :: es

theorem mem_insertEntry {k : κ} {v : ν} {e : κ × ν} {es : List (κ × ν)}
    (h : e ∈ insertEntry k v es) : e = (k, v) ∨ e ∈ es := by
  induction es with
  | nil => simpa [insertEntry] using h
  | cons e' es ih =>
    simp only [insertEntry] at h
    split at h
    · simpa using h
    · split at h
      · rcases List.mem_cons.1 h with rfl | h
        · exact Or.inr (List.mem_cons_self ..)
        · exact (ih h).imp id (List.mem_cons_of_mem _)
      · rcases List.mem_cons.1 h with rfl | h
        · exact Or.inl rfl
        · exact Or.inr (List.mem_cons_of_mem _ h)

theorem sorted_insertEntry (k : κ) (v : ν) {es : List (κ × ν)}
    (h : es.Pairwise fun a b => Key.before a.1 b.1 = true) :
    (insertEntry k v es).Pairwise fun a b => Key.before a.1 b.1 = true := by
  induction es with
  | nil => simp [insertEntry]
  | cons e es ih =>
    obtain ⟨he, hes⟩ := List.pairwise_cons.1 h
    simp only [insertEntry]
    split
    · next hk =>
      refine List.pairwise_cons.2 ⟨fun e' he' => ?_, h⟩
      rcases List.mem_cons.1 he' with rfl | he'
      · exact hk
      · exact Key.before_trans hk (he _ he')
    · next hk =>
      split
      · next hk' =>
        refine List.pairwise_cons.2 ⟨fun e' he' => ?_, ih hes⟩
        rcases mem_insertEntry he' with rfl | he'
        · exact hk'
        · exact he _ he'
      · next hk' =>
        have same : k = e.1 := Key.before_connected (by simpa using hk) (by simpa using hk')
        refine List.pairwise_cons.2 ⟨fun e' he' => ?_, hes⟩
        rw [same]
        exact he _ he'

/-- Puts an entry into the table, in place of one with the same key. -/
def insert (t : Table κ ν) (k : κ) (v : ν) : Table κ ν :=
  ⟨insertEntry k v t.entries, sorted_insertEntry k v t.sorted⟩

/-- The table of a list of entries; of two with the same key the later one counts. -/
def ofList (es : List (κ × ν)) : Table κ ν :=
  es.foldl (fun t e => t.insert e.1 e.2) empty

/-- Two keys are the same, by their order. -/
def sameKey (a b : κ) : Bool :=
  !Key.before a b && !Key.before b a

theorem sameKey_iff {a b : κ} : sameKey a b = true ↔ a = b := by
  simp only [sameKey, Bool.and_eq_true, Bool.not_eq_true']
  exact ⟨fun h => Key.before_connected h.1 h.2, fun h => by simp [h, Key.before_irrefl]⟩

/-- The value of a key. -/
def get? (t : Table κ ν) (k : κ) : Option ν :=
  (t.entries.find? fun e => sameKey e.1 k).map (·.2)

/-- Changes the value of a key, if there is one. -/
def modify (t : Table κ ν) (k : κ) (f : ν → ν) : Table κ ν where
  entries := t.entries.map fun e => if sameKey e.1 k then (e.1, f e.2) else e
  sorted := by
    rw [List.pairwise_map]
    refine t.sorted.imp fun {a b} h => ?_
    split <;> split <;> exact h

/-! ### All entries -/

/-- Replaces every value. -/
def map (f : κ → ν → ω) (t : Table κ ν) : Table κ ω where
  entries := t.entries.map fun e => (e.1, f e.1 e.2)
  sorted := by
    rw [List.pairwise_map]
    exact t.sorted

/-- Keeps the entries whose values pass a test. -/
def filter (p : ν → Bool) (t : Table κ ν) : Table κ ν where
  entries := t.entries.filter fun e => p e.2
  sorted := t.sorted.filter _

/-! ### What is found -/

/-- Looking a key up finds **the entry with this key**. -/
theorem get?_eq_some_iff {t : Table κ ν} {k : κ} {v : ν} :
    t.get? k = some v ↔ (k, v) ∈ t.entries := by
  obtain ⟨es, hs⟩ := t
  simp only [get?]
  induction es with
  | nil => simp
  | cons e es ih =>
    obtain ⟨he, hes⟩ := List.pairwise_cons.1 hs
    have ih := ih hes
    by_cases hk : e.1 = k
    · subst hk
      have hself : sameKey e.1 e.1 = true := sameKey_iff.2 rfl
      have habsent : ∀ w, (e.1, w) ∉ es := fun w hw => by
        have := he _ hw
        simp [Key.before_irrefl] at this
      simp only [List.find?_cons_of_pos, hself, Option.map_some, Option.some.injEq, List.mem_cons,
        habsent, or_false]
      exact ⟨fun h => by rw [← h], fun h => by rw [← h]⟩
    · have hne : sameKey e.1 k = false := by
        rw [← Bool.not_eq_true, sameKey_iff]
        exact hk
      rw [List.find?_cons_of_neg (by simp [hne]), ih, List.mem_cons]
      exact ⟨Or.inr, fun h => h.resolve_left fun h' => hk (by rw [← h'])⟩

theorem mem_insertEntry_iff {k : κ} {v : ν} {e : κ × ν} {es : List (κ × ν)}
    (h : es.Pairwise fun a b => Key.before a.1 b.1 = true) :
    e ∈ insertEntry k v es ↔ e = (k, v) ∨ e ∈ es ∧ e.1 ≠ k := by
  induction es with
  | nil => simp [insertEntry]
  | cons e' es ih =>
    obtain ⟨he, hes⟩ := List.pairwise_cons.1 h
    simp only [insertEntry]
    split
    · next hk =>
      have habsent : ∀ a ∈ e' :: es, a.1 ≠ k := fun a ha hak => by
        rcases List.mem_cons.1 ha with rfl | ha
        · rw [hak, Key.before_irrefl] at hk; cases hk
        · have := Key.before_trans hk (he _ ha)
          rw [hak, Key.before_irrefl] at this; cases this
      simp only [List.mem_cons (b := (k, v))]
      exact or_congr Iff.rfl ⟨fun hm => ⟨hm, habsent _ hm⟩, fun hm => hm.1⟩
    · next hk =>
      split
      · next hk' =>
        have hne : e'.1 ≠ k := fun h => by rw [h, Key.before_irrefl] at hk'; cases hk'
        rw [List.mem_cons, ih hes, List.mem_cons]
        constructor
        · rintro (rfl | h | h)
          · exact Or.inr ⟨Or.inl rfl, hne⟩
          · exact Or.inl h
          · exact Or.inr ⟨Or.inr h.1, h.2⟩
        · rintro (h | ⟨rfl | h, h'⟩)
          · exact Or.inr (Or.inl h)
          · exact Or.inl rfl
          · exact Or.inr (Or.inr ⟨h, h'⟩)
      · next hk' =>
        have same : k = e'.1 := Key.before_connected (by simpa using hk) (by simpa using hk')
        have habsent : ∀ a ∈ es, a.1 ≠ k := fun a ha hak => by
          have := he _ ha
          rw [hak, same, Key.before_irrefl] at this; cases this
        rw [List.mem_cons, List.mem_cons]
        constructor
        · rintro (h | h)
          · exact Or.inl h
          · exact Or.inr ⟨Or.inr h, habsent _ h⟩
        · rintro (h | ⟨rfl | h, h'⟩)
          · exact Or.inl h
          · exact absurd same.symm h'
          · exact Or.inr h

/-- After an insertion **the inserted value is found** under its key, and the old ones elsewhere. -/
theorem get?_insert (t : Table κ ν) (k k' : κ) (v : ν) :
    (t.insert k v).get? k' = if sameKey k k' then some v else t.get? k' := by
  apply Option.ext
  intro w
  rw [get?_eq_some_iff]
  simp only [insert, mem_insertEntry_iff t.sorted]
  by_cases hk : k = k'
  · subst hk
    simp [sameKey_iff.2, eq_comm]
  · have hne : sameKey k k' = false := by
      rw [← Bool.not_eq_true, sameKey_iff]
      exact hk
    have hne' : k' ≠ k := fun h => hk h.symm
    simp [hne, get?_eq_some_iff, hne']

end Table

end Artwork
