import Mathlib

/-!
**Rounding to the nearest double.**

A product or a quotient of doubles is computed to so many places that only a remark has to be made
about what is cut off: whether it is anything at all, and how it compares with half of the last
place.  Places are dropped, with the remark brought up to date, until no more are left than a double
has, and then the last one is rounded.  So the result is the nearest number with its last place.

Main definitions:

* `CutOff`, `CutsDown` — what is remarked about the part that was cut off;
* `Nearest` — **a number rounded to the places of a double**;
* `unpackedValue`, `IsDouble` — the number that a double stands for, and its normal form.

Main results:

* `CutsDown.shiftRight`, `CutsDown.abs_sub_le` — dropping places and rounding the last one;
* `nearest_roundWithAccuracy` — **rounding gives the nearest double**;
* `Nearest.abs_sub_le`, `Nearest.eq_self` — it is off by half a place at most, and not at all if the
  number has the places of a double.
-/

set_option relaxedAutoImplicit false
set_option autoImplicit false

namespace Artwork

open Float.Model (Format UnpackedFloat totalExponent)
open Float.Model.UnpackedFloat

/-! ### Dropping places -/

/-- What is remarked about the part that was cut off, in units of the last place. -/
def CutOff : Accuracy → ℚ → Prop
  | .exact, t => t = 0
  | .inexact .lt, t => 0 < t ∧ t < 1 / 2
  | .inexact .eq, t => t = 1 / 2
  | .inexact .gt, t => 1 / 2 < t ∧ t < 1

theorem CutOff.bounds {a : Accuracy} {t : ℚ} (h : CutOff a t) : 0 ≤ t ∧ t < 1 := by
  rcases a with _ | ⟨_ | _ | _⟩ <;> simp only [CutOff] at h <;> constructor <;> linarith

/-- The mantissa is the whole part of a number.  Of the rest, the one bit says whether it is half a unit
or more, and the other whether it is neither nothing nor half a unit. -/
structure CutsDown (em : ExtendedMantissa) (x : ℚ) : Prop where
  mantissa_le : em.mantissa ≤ x
  lt_mantissa : x < em.mantissa + 1
  roundBit_iff : em.roundBit = true ↔ em.mantissa + 1 / 2 ≤ x
  stickyBit_iff : em.stickyBit = true ↔ x ≠ em.mantissa ∧ x ≠ em.mantissa + 1 / 2

theorem cutsDown_ofMantissaAndAccuracy (m : Nat) {a : Accuracy} {t : ℚ} (h : CutOff a t) :
    CutsDown (.ofMantissaAndAccuracy m a) (m + t) := by
  rcases a with _ | ⟨_ | _ | _⟩ <;> simp only [CutOff] at h
  · subst h
    constructor <;> simp [ExtendedMantissa.ofMantissaAndAccuracy]
  · obtain ⟨hpos, hhalf⟩ := h
    constructor <;> simp [ExtendedMantissa.ofMantissaAndAccuracy] <;>
      first | linarith | constructor <;> linarith
  · subst h
    constructor <;> simp [ExtendedMantissa.ofMantissaAndAccuracy]; norm_num
  · obtain ⟨hhalf, hone⟩ := h
    constructor <;> simp [ExtendedMantissa.ofMantissaAndAccuracy] <;>
      first | linarith | constructor <;> linarith

namespace CutsDown

variable {em : ExtendedMantissa} {x : ℚ}

/-- With one place less, what is cut down is half of the number. -/
theorem shiftRightOne (h : CutsDown em x) : CutsDown em.shiftRightOne (x / 2) := by
  have hhalf : ((em.mantissa % 2 : ℕ) : ℚ) + 2 * ((em.mantissa / 2 : ℕ) : ℚ) = em.mantissa := by
    exact_mod_cast Nat.mod_add_div em.mantissa 2
  have hle := h.mantissa_le
  have hlt := h.lt_mantissa
  -- the bits together say whether anything is left over
  have hany : (em.roundBit || em.stickyBit) = true ↔ x ≠ em.mantissa := by
    rw [Bool.or_eq_true, h.roundBit_iff, h.stickyBit_iff]
    constructor
    · rintro (hround | ⟨hne, -⟩)
      · exact ne_of_gt (by linarith)
      · exact hne
    · intro hne
      rcases eq_or_ne x (em.mantissa + 1 / 2) with heq | hne'
      · exact Or.inl heq.ge
      · exact Or.inr ⟨hne, hne'⟩
  rcases Nat.mod_two_eq_zero_or_one em.mantissa with hbit | hbit
  · rw [hbit, Nat.cast_zero, zero_add] at hhalf
    refine ⟨?_, ?_, ?_, ?_⟩ <;> simp only [ExtendedMantissa.shiftRightOne]
    · linarith
    · linarith
    · simp only [hbit, bne_self_eq_false, Bool.false_eq_true, false_iff, not_le]
      linarith
    · rw [hany]
      constructor
      · exact fun hne => ⟨fun heq => hne (by linarith), ne_of_lt (by linarith)⟩
      · exact fun hne heq => hne.1 (by linarith)
  · rw [hbit, Nat.cast_one] at hhalf
    refine ⟨?_, ?_, ?_, ?_⟩ <;> simp only [ExtendedMantissa.shiftRightOne]
    · linarith
    · linarith
    · simp only [hbit, bne_iff_ne, ne_eq, one_ne_zero, not_false_eq_true, true_iff]
      linarith
    · rw [hany]
      constructor
      · exact fun hne => ⟨ne_of_gt (by linarith), fun heq => hne (by linarith)⟩
      · exact fun hne heq => hne.2 (by linarith)

theorem shiftRight (h : CutsDown em x) (n : Nat) : CutsDown (em >>> n) (x / 2 ^ n) := by
  induction n with
  | zero =>
      rw [pow_zero, div_one]
      exact h
  | succ n ih =>
      rw [pow_succ, ← div_div]
      exact ih.shiftRightOne

/-- The last place is rounded **to the nearest**. -/
theorem abs_sub_le (h : CutsDown em x) : |(em.roundedMantissa : ℚ) - x| ≤ 1 / 2 := by
  obtain ⟨m, r, s⟩ := em
  obtain ⟨hle, hlt, hround, hsticky⟩ := h
  dsimp only at hle hlt hround hsticky
  rw [abs_le]
  cases r with
  | false =>
      -- less than half is left over, and nothing is done about it
      have hhalf : x < m + 1 / 2 := not_le.1 fun hge => by simpa using hround.2 hge
      have hdown : ExtendedMantissa.roundedMantissa ⟨m, false, s⟩ = m := by cases s <;> rfl
      rw [hdown]
      constructor <;> linarith
  | true =>
      have hhalf : m + 1 / 2 ≤ x := hround.1 rfl
      cases s with
      | false =>
          -- exactly half is left over, and it goes to the even side
          have heq : x = m + 1 / 2 := by
            by_contra hne
            simpa using hsticky.2 ⟨ne_of_gt (by linarith), hne⟩
          have heven : ExtendedMantissa.roundedMantissa ⟨m, true, false⟩ = m + m % 2 := rfl
          rw [heven, heq]
          rcases Nat.mod_two_eq_zero_or_one m with hm | hm <;> rw [hm] <;> push_cast <;>
            constructor <;> linarith
      | true =>
          have hup : ExtendedMantissa.roundedMantissa ⟨m, true, true⟩ = m + 1 := rfl
          rw [hup]
          push_cast
          constructor <;> linarith

end CutsDown

/-! ### The nearest double -/

/-- The number `r` is `v` **rounded to the places of a double**.  Its last place is either the
lowest that a double has, or it leaves 53 places for `v`. -/
def Nearest (v r : ℚ) : Prop :=
  ∃ e n : ℤ, -1074 ≤ e ∧ (e = -1074 ∨ 2 ^ (e + 52) ≤ |v|) ∧ |n - v / 2 ^ e| ≤ 1 / 2 ∧
    r = n * 2 ^ e

namespace Nearest

/-- A whole number of last places is rounded to itself. -/
theorem mul_eq_of_integral {v : ℚ} {e n j : ℤ} (hn : |n - v / 2 ^ e| ≤ 1 / 2)
    (hj : v = j * 2 ^ e) : n * 2 ^ e = v := by
  have hsame : v / 2 ^ e = j := by
    rw [hj]
    exact mul_div_cancel_right₀ _ (by positivity)
  rw [hsame, ← Int.cast_sub, ← Int.cast_abs] at hn
  have hlt : |n - j| < 1 := by
    have hhalf : ((|n - j| : ℤ) : ℚ) < 1 := by linarith
    exact_mod_cast hhalf
  have heq : n = j := sub_eq_zero.1 (Int.abs_lt_one_iff.1 hlt)
  rw [hj, heq]

/-- Of a number of `53` places from `k` on, or the power of two after these, the last place is `k` or
lower, or the number is a whole number of last places. -/
theorem le_or_integral {v : ℚ} {e k : ℤ} (hplace : e = -1074 ∨ 2 ^ (e + 52) ≤ |v|)
    (hk : -1074 ≤ k) (hv : |v| ≤ 2 ^ (k + 53)) : e ≤ k ∨ ∃ j : ℤ, v = j * 2 ^ e := by
  rcases hplace with rfl | hplace
  · exact Or.inl hk
  have hle : e + 52 ≤ k + 53 := (zpow_le_zpow_iff_right₀ one_lt_two).1 (hplace.trans hv)
  rcases Int.lt_or_le k e with hlt | hle'
  · refine Or.inr ?_
    have he : k + 53 = e + 52 := by omega
    rw [he] at hv
    have habs : |v| = 2 ^ (52 : ℤ) * 2 ^ e := by
      rw [le_antisymm hv hplace, ← zpow_add₀ two_ne_zero, add_comm]
    rcases abs_choice v with hsign | hsign <;> rw [hsign] at habs
    · exact ⟨2 ^ 52, by rw [habs]; norm_num⟩
    · exact ⟨-2 ^ 52, by rw [← neg_eq_iff_eq_neg.2 habs.symm]; norm_num⟩
  · exact Or.inl hle'

variable {v r : ℚ}

/-- A rounded number is off **by half a place at most**, wherever the last place may be. -/
theorem abs_sub_le (h : Nearest v r) {k : ℤ} (hk : -1074 ≤ k) (hv : |v| ≤ 2 ^ (k + 53)) :
    |r - v| ≤ 2 ^ (k - 1) := by
  obtain ⟨e, n, -, hplace, hn, rfl⟩ := h
  rcases le_or_integral hplace hk hv with hle | ⟨j, hj⟩
  · have hpos : (0 : ℚ) < 2 ^ e := by positivity
    have hunit : (n * 2 ^ e - v : ℚ) = (n - v / 2 ^ e) * 2 ^ e := by
      rw [sub_mul, div_mul_cancel₀ _ hpos.ne']
    calc |n * 2 ^ e - v| = |n - v / 2 ^ e| * 2 ^ e := by rw [hunit, abs_mul, abs_of_pos hpos]
      _ ≤ 1 / 2 * 2 ^ e := by gcongr
      _ = 2 ^ (e - 1) := by rw [zpow_sub_one₀ two_ne_zero]; ring
      _ ≤ 2 ^ (k - 1) := by gcongr; norm_num
  · rw [mul_eq_of_integral hn hj, sub_self, abs_zero]
    positivity

/-- A number that has no more places than a double **is not changed**. -/
theorem eq_self (h : Nearest v r) {k j : ℤ} (hk : -1074 ≤ k) (hv : |v| ≤ 2 ^ (k + 53))
    (hj : v = j * 2 ^ k) : r = v := by
  obtain ⟨e, n, -, hplace, hn, rfl⟩ := h
  rcases le_or_integral hplace hk hv with hle | ⟨j', hj'⟩
  · obtain ⟨d, rfl⟩ := Int.le.dest hle
    refine mul_eq_of_integral (j := j * 2 ^ d) hn ?_
    rw [hj, zpow_add₀ two_ne_zero, zpow_natCast]
    push_cast
    ring
  · exact mul_eq_of_integral hn hj'

theorem eq_zero (h : Nearest 0 r) : r = 0 :=
  h.eq_self (k := 0) (j := 0) (by decide) (by rw [abs_zero]; positivity) (by simp)

end Nearest

/-- The number that an unpacked double stands for. -/
def unpackedValue : UnpackedFloat → ℚ
  | .finite s m e _ => s.apply m * 2 ^ e
  | _ => 0

/-- A double that is neither infinite nor undefined, in the form in which it has 53 places, or
fewer if its last place is the lowest that there is. -/
def IsDouble : UnpackedFloat → Prop
  | .zero _ => True
  | .finite _ m e _ => m < 2 ^ 53 ∧ -1074 ≤ e ∧ e ≤ 971 ∧ (2 ^ 52 ≤ m ∨ e = -1074)
  | _ => False

/-! ### Rounding -/

theorem targetExponent_eq (m : Nat) (e : Int) :
    Format.binary64.targetExponent (totalExponent m e) = max (m.log2 + 1 + e - 53) (-1074) := rfl

/-- The last place that is left of a mantissa. -/
def lastPlace (m : Nat) (e : Int) : Int :=
  max (m.log2 + 1 + e - 53) (-1074)

theorem le_lastPlace {m : Nat} {e : Int} (he : e ≤ -1074 ∨ 2 ^ 52 ≤ m) : e ≤ lastPlace m e := by
  unfold lastPlace
  rcases he with he | hm
  · omega
  · have hlog : 52 ≤ m.log2 := (Nat.le_log2 (by omega)).2 hm
    omega

/-- Places are dropped down to the last one that is left. -/
theorem cutsDown_shiftToTargetExponent {m : Nat} {e : Int} {a : Accuracy} {t : ℚ} (ht : CutOff a t)
    (he : e ≤ lastPlace m e) :
    CutsDown (shiftToTargetExponent .binary64 m e a).1 ((m + t) * 2 ^ e / 2 ^ lastPlace m e) ∧
      (shiftToTargetExponent .binary64 m e a).2 = lastPlace m e := by
  obtain ⟨d, hd⟩ := Int.le.dest he
  have hdrop : (Format.binary64.targetExponent (totalExponent m e) - e).toNat = d := by
    rw [targetExponent_eq, ← lastPlace, ← hd]
    omega
  unfold shiftToTargetExponent shiftToExponent
  dsimp only
  rw [hdrop, hd, ← hd]
  refine ⟨?_, rfl⟩
  have hpow : ((m + t) * 2 ^ e / 2 ^ (e + d) : ℚ) = (m + t) / 2 ^ d := by
    rw [zpow_add₀ two_ne_zero, zpow_natCast]
    field_simp
  rw [hpow]
  exact (cutsDown_ofMantissaAndAccuracy m ht).shiftRight d

/-- A mantissa with its places settled is not shifted again. -/
theorem shiftToTargetExponent_of_lt {m : Nat} {e : Int} (hm : m < 2 ^ 53) (he : -1074 ≤ e) :
    shiftToTargetExponent .binary64 m e .exact = (⟨m, false, false⟩, e) := by
  have hlog : m.log2 ≤ 52 := by
    rcases Nat.eq_zero_or_pos m with rfl | hpos
    · decide
    · exact Nat.le_of_lt_succ ((Nat.log2_lt hpos.ne').2 hm)
  have hdrop : (Format.binary64.targetExponent (totalExponent m e) - e).toNat = 0 := by
    rw [targetExponent_eq]
    omega
  unfold shiftToTargetExponent shiftToExponent
  dsimp only
  rw [hdrop]
  exact Prod.ext rfl (add_zero e)

/-- A mantissa that was rounded up to one place more is shifted once. -/
theorem shiftToTargetExponent_two_pow {e : Int} (he : -1074 ≤ e) :
    shiftToTargetExponent .binary64 (2 ^ 53) e .exact = (⟨2 ^ 52, false, false⟩, e + 1) := by
  have hdrop : (Format.binary64.targetExponent (totalExponent (2 ^ 53) e) - e).toNat = 1 := by
    rw [targetExponent_eq, Nat.log2_two_pow]
    omega
  unfold shiftToTargetExponent shiftToExponent
  dsimp only
  rw [hdrop]
  rfl

/-- The number with a mantissa and a last place, once they are settled. -/
def settled (s : Sign) (p : ExtendedMantissa × Int) : UnpackedFloat :=
  if h : p.1.mantissa = 0 then .zero s else .finite s p.1.mantissa p.2 (Nat.pos_of_ne_zero h)

theorem roundWithAccuracy_eq (s : Sign) (m : Nat) (e : Int) (a : Accuracy) :
    roundWithAccuracy .binary64 s m e a =
      settled s (shiftToTargetExponent .binary64
        (shiftToTargetExponent .binary64 m e a).1.roundedMantissa
        (shiftToTargetExponent .binary64 m e a).2 .exact) := rfl

theorem settled_eq (s : Sign) {m : Nat} {e : Int} (hm : m < 2 ^ 53) (he : -1074 ≤ e)
    (he' : e ≤ 971) (hplace : 2 ^ 52 ≤ m ∨ e = -1074) (bits bits' : Bool) :
    IsDouble (settled s (⟨m, bits, bits'⟩, e)) ∧
      unpackedValue (settled s (⟨m, bits, bits'⟩, e)) = s.apply m * 2 ^ e := by
  unfold settled
  split
  · next hzero =>
      dsimp only at hzero
      refine ⟨trivial, ?_⟩
      cases s <;> simp [unpackedValue, Sign.apply, hzero]
  · exact ⟨⟨hm, he, he', hplace⟩, rfl⟩

/-- A rounded mantissa may have one place too many, which does not change what it stands for. -/
theorem settled_shiftToTargetExponent (s : Sign) {m : Nat} {e : Int} (hm : m ≤ 2 ^ 53)
    (he : -1074 ≤ e) (he' : e ≤ 970) (hplace : 2 ^ 52 ≤ m ∨ e = -1074) :
    IsDouble (settled s (shiftToTargetExponent .binary64 m e .exact)) ∧
      unpackedValue (settled s (shiftToTargetExponent .binary64 m e .exact)) =
        s.apply m * 2 ^ e := by
  rcases Nat.lt_or_eq_of_le hm with hlt | rfl
  · rw [shiftToTargetExponent_of_lt hlt he]
    exact settled_eq s hlt he (by omega) hplace _ _
  · rw [shiftToTargetExponent_two_pow he]
    obtain ⟨hdouble, hvalue⟩ :=
      settled_eq s (show 2 ^ 52 < 2 ^ 53 by decide) (show -1074 ≤ e + 1 by omega) (by omega)
        (Or.inl le_rfl) false false
    refine ⟨hdouble, hvalue.trans ?_⟩
    rw [zpow_add_one₀ two_ne_zero]
    cases s <;> simp only [Sign.apply] <;> push_cast <;> ring

/-- What is cut down to the last place has 53 places, unless the last place is the lowest. -/
theorem bounds_lastPlace {m : Nat} {e : Int} {t : ℚ} (ht : 0 ≤ t ∧ t < 1)
    (he : e ≤ -1074 ∨ 2 ^ 52 ≤ m) :
    (m + t) * 2 ^ e < 2 ^ (lastPlace m e + 53) ∧
      (lastPlace m e = -1074 ∨ (2 : ℚ) ^ (lastPlace m e + 52) ≤ (m + t) * 2 ^ e) := by
  have hlow : -1074 ≤ lastPlace m e := le_max_right ..
  constructor
  · have hup : ((m + 1 : ℕ) : ℚ) ≤ 2 ^ (m.log2 + 1) := by
      exact_mod_cast Nat.lt_log2_self
    have hexp : (m.log2 + 1 : ℤ) + e ≤ lastPlace m e + 53 := by
      unfold lastPlace
      omega
    calc (m + t) * 2 ^ e < (m + 1 : ℕ) * 2 ^ e := by
          push_cast
          gcongr
          exact ht.2
      _ ≤ 2 ^ (m.log2 + 1) * 2 ^ e := by gcongr
      _ = (2 : ℚ) ^ ((m.log2 + 1 : ℤ) + e) := by rw [zpow_add₀ two_ne_zero]; norm_cast
      _ ≤ 2 ^ (lastPlace m e + 53) := by gcongr; norm_num
  · rcases eq_or_ne (lastPlace m e) (-1074) with heq | hne
    · exact Or.inl heq
    · refine Or.inr ?_
      have hexp : lastPlace m e + 52 = m.log2 + e := by
        unfold lastPlace at hne ⊢
        omega
      have hm : m ≠ 0 := by
        rintro rfl
        unfold lastPlace at hne
        have hlog : Nat.log2 0 = 0 := by decide
        omega
      have hdown : ((2 ^ m.log2 : ℕ) : ℚ) ≤ m := by
        exact_mod_cast Nat.log2_self_le hm
      calc (2 : ℚ) ^ (lastPlace m e + 52) = (2 ^ m.log2 : ℕ) * 2 ^ e := by
            rw [hexp, zpow_add₀ two_ne_zero]
            norm_cast
        _ ≤ (m + t) * 2 ^ e := by
            gcongr
            linarith [ht.1]

theorem abs_apply_mul (s : Sign) {x : ℚ} (hx : 0 ≤ x) : |s.apply 1 * x| = x := by
  cases s <;> simp [Sign.apply, abs_of_nonneg hx]

theorem apply_mul (s : Sign) (n : Nat) : ((s.apply n : ℤ) : ℚ) = s.apply 1 * n := by
  cases s <;> simp [Sign.apply]

/-- **Rounding gives the nearest double**, unless the number is beyond all of them. -/
theorem nearest_roundWithAccuracy (s : Sign) {m : Nat} {e : Int} {a : Accuracy} {t : ℚ}
    (ht : CutOff a t) (he : e ≤ -1074 ∨ 2 ^ 52 ≤ m) (hbound : (m + t) * 2 ^ e < 2 ^ 1023) :
    IsDouble (roundWithAccuracy .binary64 s m e a) ∧
      Nearest (s.apply 1 * ((m + t) * 2 ^ e))
        (unpackedValue (roundWithAccuracy .binary64 s m e a)) := by
  obtain ⟨hcut, hlast⟩ := cutsDown_shiftToTargetExponent ht (le_lastPlace he)
  obtain ⟨hup, hdown⟩ := bounds_lastPlace ht.bounds he
  have hlow : -1074 ≤ lastPlace m e := le_max_right ..
  have hnear := hcut.abs_sub_le
  rw [roundWithAccuracy_eq, hlast]
  generalize (shiftToTargetExponent .binary64 m e a).1.roundedMantissa = n at hnear ⊢
  generalize lastPlace m e = k at hup hdown hlow hnear ⊢
  have hpos : (0 : ℚ) < 2 ^ k := by positivity
  obtain ⟨hge, hle⟩ := abs_le.1 hnear
  -- rounding can reach the next power of two, but not go beyond it
  have hn : n ≤ 2 ^ 53 := by
    have hx : (m + t) * 2 ^ e / 2 ^ k < 2 ^ 53 := by
      rw [div_lt_iff₀ hpos]
      calc (m + t) * 2 ^ e < 2 ^ (k + 53) := hup
        _ = 2 ^ 53 * 2 ^ k := by rw [zpow_add₀ two_ne_zero, mul_comm]; norm_cast
    have hlt : (n : ℚ) < ((2 ^ 53 + 1 : ℕ) : ℚ) := by
      push_cast
      linarith
    exact Nat.le_of_lt_succ (by exact_mod_cast hlt)
  have hplace : 2 ^ 52 ≤ n ∨ k = -1074 := by
    rcases hdown with heq | hdown
    · exact Or.inr heq
    · refine Or.inl ?_
      have hx : 2 ^ 52 ≤ (m + t) * 2 ^ e / 2 ^ k := by
        rw [le_div_iff₀ hpos]
        calc (2 : ℚ) ^ 52 * 2 ^ k = 2 ^ (k + 52) := by
              rw [zpow_add₀ two_ne_zero, mul_comm]
              norm_cast
          _ ≤ (m + t) * 2 ^ e := hdown
      have hlt : ((2 ^ 52 : ℕ) : ℚ) < ((n + 1 : ℕ) : ℚ) := by
        push_cast
        linarith
      exact Nat.le_of_lt_succ (by exact_mod_cast hlt)
  have hhigh : k ≤ 970 := by
    rcases hdown with heq | hdown
    · omega
    · have hlt := (zpow_lt_zpow_iff_right₀ (a := (2 : ℚ)) one_lt_two).1
        (hdown.trans_lt (by exact_mod_cast hbound : _ < (2 : ℚ) ^ (1023 : ℤ)))
      omega
  obtain ⟨hdouble, hvalue⟩ := settled_shiftToTargetExponent s hn hlow hhigh hplace
  have hnonneg : 0 ≤ (m + t) * 2 ^ e := mul_nonneg (by linarith [ht.bounds.1]) (by positivity)
  refine ⟨hdouble, k, s.apply n, hlow, ?_, ?_, hvalue⟩
  · rw [abs_apply_mul s hnonneg]
    exact hdown
  · rw [apply_mul, mul_div_assoc, ← mul_sub]
    cases s <;> simpa [Sign.apply, abs_sub_comm] using hnear

end Artwork
