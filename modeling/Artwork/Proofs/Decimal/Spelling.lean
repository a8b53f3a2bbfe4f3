import Artwork.Proofs.Decimal.Comparison
import Mathlib.Data.Nat.Digits.Defs
import Mathlib.Data.List.Induction

/-!
**How numerals are spelled, and what they stand for.**

A numeral is digits with an optional point among or after them, or a point and digits, and a sign in
front if any.  The relation `Numeral.Spelling` has one rule for each of these shapes, and the reader
finds exactly the numerals that it relates to a word.  The value of a numeral is written down apart
from the loop that computes it, with the decimal notation of the library.

Main definitions:

* `Numeral.Unsigned`, `Numeral.Spelling` — **the words that spell a numeral**;
* `Numeral.IsAscii`, `Numeral.nearest` — the numerals with a value, and that value;
* `IsOperand` — the words that spell a number.

Main results:

* `Numeral.read?_eq_some_iff` — **the reader is sound and complete**;
* `Numeral.value?_eq_some_iff` — a numeral has a value when its digits are ASCII, and which.
-/

set_option relaxedAutoImplicit false
set_option autoImplicit false

namespace Artwork

namespace Numeral

/-! ### Spelling -/

/-- All characters are decimal digits, of any script. -/
def Digits (ds : List Char) : Prop :=
  ∀ d ∈ ds, isDecimalDigit d = true

/-- The word spells the digits before and behind the point, **without a sign**. -/
inductive Unsigned : List Char → List Char → List Char → Prop
  | whole {ds : List Char} : ds ≠ [] → Digits ds → Unsigned ds ds []
  | point {ds fs : List Char} : ds ≠ [] → Digits ds → Digits fs → Unsigned (ds ++ '.' :: fs) ds fs
  | fraction {fs : List Char} : fs ≠ [] → Digits fs → Unsigned ('.' :: fs) [] fs

/-- The word **spells the numeral**. -/
inductive Spelling : List Char → Numeral → Prop
  | unsigned {w ds fs : List Char} : Unsigned w ds fs → Spelling w ⟨false, ds, fs⟩
  | plus {w ds fs : List Char} : Unsigned w ds fs → Spelling ('+' :: w) ⟨false, ds, fs⟩
  | minus {w ds fs : List Char} : Unsigned w ds fs → Spelling ('-' :: w) ⟨true, ds, fs⟩

theorem isDecimalDigit_point : isDecimalDigit '.' = false := by decide

theorem isDecimalDigit_plus : isDecimalDigit '+' = false := by decide

theorem isDecimalDigit_minus : isDecimalDigit '-' = false := by decide

/-- Digits before a rest that begins with none are exactly the digits that all of it begins with. -/
theorem takeWhile_digits (ds rest : List Char) (hds : Digits ds)
    (hrest : ∀ c, rest.head? = some c → isDecimalDigit c = false) :
    (ds ++ rest).takeWhile isDecimalDigit = ds ∧ (ds ++ rest).dropWhile isDecimalDigit = rest := by
  rw [List.takeWhile_append_of_pos hds, List.dropWhile_append_of_pos hds]
  cases rest with
  | nil => exact ⟨by rw [List.takeWhile_nil, List.append_nil], rfl⟩
  | cons c rest =>
      have hc := hrest c rfl
      rw [List.takeWhile_cons_of_neg (by simp [hc]), List.dropWhile_cons_of_neg (by simp [hc])]
      exact ⟨List.append_nil ds, rfl⟩

/-- What is read without a sign is spelled so. -/
theorem unsigned_of_readDigits? {negative : Bool} {w : List Char} {n : Numeral}
    (h : readDigits? negative w = some n) :
    n.negative = negative ∧ Unsigned w n.whole n.fraction := by
  have hwhole : Digits (w.takeWhile isDecimalDigit) := List.all_eq_true.1 List.all_takeWhile
  have hsplit := List.takeWhile_append_dropWhile (p := isDecimalDigit) (l := w)
  unfold readDigits? at h
  dsimp only at h
  split at h
  · next hdrop =>
      split at h
      · cases h
      · next hne =>
          obtain rfl := Option.some.inj h
          rw [hdrop, List.append_nil] at hsplit
          refine ⟨rfl, ?_⟩
          dsimp only
          rw [hsplit] at hne hwhole ⊢
          exact .whole (by simpa using hne) hwhole
  · next c fraction hdrop =>
      split at h
      · next hc =>
          obtain rfl := Option.some.inj h
          simp only [Bool.and_eq_true, beq_iff_eq, List.all_eq_true, Bool.not_eq_true',
            Bool.and_eq_false_iff, List.isEmpty_eq_false_iff] at hc
          obtain ⟨⟨rfl, hfraction⟩, hne⟩ := hc
          refine ⟨rfl, ?_⟩
          dsimp only
          rw [hdrop] at hsplit
          by_cases hnil : w.takeWhile isDecimalDigit = []
          · rw [hnil, List.nil_append] at hsplit
            rw [hnil, ← hsplit]
            exact .fraction (hne.resolve_left (not_not_intro hnil)) hfraction
          · have hpoint := Unsigned.point hnil hwhole hfraction
            rwa [hsplit] at hpoint
      · cases h

/-- What is spelled without a sign is read so. -/
theorem Unsigned.readDigits? {w ds fs : List Char} (h : Unsigned w ds fs) (negative : Bool) :
    readDigits? negative w = some ⟨negative, ds, fs⟩ := by
  cases h with
  | whole hne hds =>
      obtain ⟨htake, hdrop⟩ := takeWhile_digits _ [] hds nofun
      rw [List.append_nil] at htake hdrop
      unfold Numeral.readDigits?
      dsimp only
      rw [hdrop, htake]
      dsimp only
      rw [if_neg (by simpa using hne)]
  | point hne hds hfs =>
      obtain ⟨htake, hdrop⟩ := takeWhile_digits _ ('.' :: fs) hds
        (by simpa using isDecimalDigit_point)
      unfold Numeral.readDigits?
      dsimp only
      rw [hdrop, htake]
      dsimp only
      refine if_pos ?_
      simpa [hne, Digits] using hfs
  | fraction hne hfs =>
      obtain ⟨htake, hdrop⟩ := takeWhile_digits [] ('.' :: fs) nofun
        (by simpa using isDecimalDigit_point)
      rw [List.nil_append] at htake hdrop
      unfold Numeral.readDigits?
      dsimp only
      rw [hdrop, htake]
      dsimp only
      refine if_pos ?_
      simpa [hne, Digits] using hfs

/-- A word without a sign does not begin with one. -/
theorem Unsigned.head_ne {w ds fs : List Char} (h : Unsigned w ds fs) :
    w.head? ≠ some '+' ∧ w.head? ≠ some '-' := by
  have hdigit : ∀ ds : List Char, Digits ds → ds.head? ≠ some '+' ∧ ds.head? ≠ some '-' := by
    intro ds hds
    refine ⟨fun hplus => ?_, fun hminus => ?_⟩
    · exact absurd (hds _ (List.mem_of_mem_head? hplus)) (by rw [isDecimalDigit_plus]; nofun)
    · exact absurd (hds _ (List.mem_of_mem_head? hminus)) (by rw [isDecimalDigit_minus]; nofun)
  cases h with
  | whole hne hds => exact hdigit _ hds
  | point hne hds hfs =>
      obtain ⟨d, ds', rfl⟩ := List.exists_cons_of_ne_nil hne
      exact hdigit (d :: ds') hds
  | fraction hne hfs => exact ⟨by simp, by simp⟩

theorem Unsigned.mem_iff {w ds fs : List Char} (h : Unsigned w ds fs) (c : Char) :
    c ∈ w ∧ isDecimalDigit c = true ↔ c ∈ ds ++ fs := by
  have hpoint : isDecimalDigit c = true → c ≠ '.' := by
    rintro hc rfl
    exact absurd hc (by decide)
  cases h with
  | whole _ hds =>
      rw [List.append_nil]
      exact and_iff_left_of_imp (hds c)
  | point _ hds hfs =>
      rw [List.mem_append, List.mem_append, List.mem_cons]
      constructor
      · rintro ⟨hds' | hc | hfs', hdigit⟩
        · exact Or.inl hds'
        · exact absurd hc (hpoint hdigit)
        · exact Or.inr hfs'
      · rintro (hds' | hfs')
        · exact ⟨Or.inl hds', hds c hds'⟩
        · exact ⟨Or.inr (Or.inr hfs'), hfs c hfs'⟩
  | fraction _ hfs =>
      rw [List.nil_append, List.mem_cons]
      constructor
      · rintro ⟨hc | hfs', hdigit⟩
        · exact absurd hc (hpoint hdigit)
        · exact hfs'
      · exact fun hfs' => ⟨Or.inr hfs', hfs c hfs'⟩

/-- The digits of a numeral are the digits of the word. -/
theorem Spelling.mem_iff {w : List Char} {n : Numeral} (h : Spelling w n) (c : Char) :
    c ∈ w ∧ isDecimalDigit c = true ↔ c ∈ n.whole ++ n.fraction := by
  cases h with
  | unsigned hunsigned => exact hunsigned.mem_iff c
  | plus hunsigned =>
      rw [← hunsigned.mem_iff c, List.mem_cons]
      refine and_congr_left fun hdigit => or_iff_right ?_
      rintro rfl
      exact absurd hdigit (by decide)
  | minus hunsigned =>
      rw [← hunsigned.mem_iff c, List.mem_cons]
      refine and_congr_left fun hdigit => or_iff_right ?_
      rintro rfl
      exact absurd hdigit (by decide)

/-- **The reader is sound and complete.** -/
theorem read?_eq_some_iff {w : List Char} {n : Numeral} : read? w = some n ↔ Spelling w n := by
  constructor
  · intro h
    unfold read? at h
    split at h
    all_goals
      obtain ⟨hsign, hunsigned⟩ := unsigned_of_readDigits? h
      obtain ⟨negative, whole, fraction⟩ := n
      obtain rfl := hsign
    · exact .plus hunsigned
    · exact .minus hunsigned
    · exact .unsigned hunsigned
  · intro h
    cases h with
    | unsigned hunsigned =>
        obtain ⟨hplus, hminus⟩ := hunsigned.head_ne
        unfold read?
        split
        · exact absurd rfl hplus
        · exact absurd rfl hminus
        · exact hunsigned.readDigits? false
    | plus hunsigned => exact hunsigned.readDigits? false
    | minus hunsigned => exact hunsigned.readDigits? true

/-! ### Value -/

/-- The character is an ASCII digit. -/
def IsAsciiDigit (d : Char) : Prop :=
  '0' ≤ d ∧ d ≤ '9'

/-- All digits of the numeral are ASCII. -/
def IsAscii (n : Numeral) : Prop :=
  ∀ d ∈ n.whole ++ n.fraction, IsAsciiDigit d

theorem Spelling.isAscii_iff {w : List Char} {n : Numeral} (h : Spelling w n) :
    n.IsAscii ↔ ∀ c ∈ w, isDecimalDigit c = true → IsAsciiDigit c := by
  constructor
  · intro hn c hc hdigit
    exact hn c ((h.mem_iff c).1 ⟨hc, hdigit⟩)
  · intro hw d hd
    obtain ⟨hd, hdigit⟩ := (h.mem_iff d).2 hd
    exact hw d hd hdigit

/-- The number that ASCII digits write in decimal notation, the last one counting least. -/
def decimal (ds : List Char) : Nat :=
  Nat.ofDigits 10 (ds.reverse.map fun d => d.toNat - '0'.toNat)

/-- The double nearest to a numeral: all its digits together, with as many decimal places as
there are digits behind the point. -/
def nearest (n : Numeral) : Float :=
  let x := Float.ofScientific (decimal (n.whole ++ n.fraction)) true n.fraction.length
  if n.negative then -x else x

theorem asciiDigit?_eq_some_iff {d : Char} {v : Nat} :
    asciiDigit? d = some v ↔ IsAsciiDigit d ∧ v = d.toNat - '0'.toNat := by
  unfold asciiDigit? IsAsciiDigit
  split
  · next h =>
      exact ⟨fun heq => ⟨h, (Option.some.inj heq).symm⟩, fun heq => congrArg some heq.2.symm⟩
  · next h => exact ⟨nofun, fun heq => absurd heq.1 h⟩

/-- Digits have a value exactly if they are ASCII, and it is that of the decimal notation. -/
theorem digitsValue?_eq_some_iff {ds : List Char} {v : Nat} :
    digitsValue? ds = some v ↔ (∀ d ∈ ds, IsAsciiDigit d) ∧ v = decimal ds := by
  unfold digitsValue? decimal
  induction ds using List.reverseRecOn generalizing v with
  | nil =>
      rw [List.foldlM_nil]
      exact ⟨fun h => ⟨nofun, (Option.some.inj h).symm⟩, fun h => congrArg some h.2.symm⟩
  | append_singleton ds d ih =>
      rw [List.foldlM_append, List.reverse_append, List.forall_mem_append,
        List.forall_mem_singleton]
      simp only [List.foldlM_cons, List.foldlM_nil, List.reverse_singleton, List.singleton_append,
        List.map_cons, Nat.ofDigits_cons, bind_pure]
      rw [Option.bind_eq_bind, Option.bind_eq_some_iff]
      -- the last digit counts least and is read last
      constructor
      · rintro ⟨u, hu, hv⟩
        obtain ⟨hds, rfl⟩ := ih.1 hu
        obtain ⟨k, hk, rfl⟩ := Option.map_eq_some_iff.1 hv
        obtain ⟨hd, rfl⟩ := asciiDigit?_eq_some_iff.1 hk
        exact ⟨⟨hds, hd⟩, by rw [Nat.mul_comm, Nat.add_comm]⟩
      · rintro ⟨⟨hds, hd⟩, rfl⟩
        refine ⟨_, ih.2 ⟨hds, rfl⟩, ?_⟩
        rw [asciiDigit?_eq_some_iff.2 ⟨hd, rfl⟩, Option.map_some, Nat.mul_comm, Nat.add_comm]

/-- A numeral **has a value** exactly if its digits are ASCII, and it is the nearest double. -/
theorem value?_eq_some_iff {n : Numeral} {x : Float} :
    n.value? = some x ↔ n.IsAscii ∧ x = n.nearest := by
  unfold value?
  rw [Option.map_eq_some_iff]
  constructor
  · rintro ⟨v, hv, rfl⟩
    obtain ⟨hascii, rfl⟩ := digitsValue?_eq_some_iff.1 hv
    exact ⟨hascii, rfl⟩
  · rintro ⟨hascii, rfl⟩
    exact ⟨_, digitsValue?_eq_some_iff.2 ⟨hascii, rfl⟩, rfl⟩

end Numeral

/-! ### Numbers in words -/

/-- The word spells a number: a numeral in ASCII digits, and the double nearest to it. -/
def IsOperand (w : List Char) (x : Float) : Prop :=
  ∃ n : Numeral, Numeral.Spelling w n ∧ n.IsAscii ∧ x = n.nearest

end Artwork
