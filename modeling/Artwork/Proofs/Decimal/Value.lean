import Artwork.Decimal.Binary
import Artwork.Proofs.Decimal.Comparison
import Artwork.Proofs.Decimal.Rounding

/-!
**What doubles stand for.**

A finite double stands for a number, and there is only one double for it, but for the two zeros.  A
product or a quotient is the exact one rounded to the nearest double, whole numbers of 53 places are
exact, and doubles are compared as numbers.  This is shown for the arithmetic of unpacked doubles
first.  Then it is carried over to the bits, from which the exact form of a double is read as well.

Main definitions:

* `ofFields`, `ofUnpacked` — a double from the fields of its bits, and its exact form;
* `floatValue`, `Binary.value` — **the number that a double stands for**.

Main results:

* `nearest_mul`, `nearest_div` — **products and quotients are rounded to the nearest**;
* `unpack_pack`, `ofFloat_eq` — nothing is lost in the bits, and the exact form is read off them;
* `nearest_float_mul`, `nearest_float_div`, `floatValue_neg`, `floatValue_ofNat` — the arithmetic of
  doubles;
* `floatValue_le_of_le`, `beq_iff_floatValue_eq` — comparisons.
-/

set_option relaxedAutoImplicit false
set_option autoImplicit false

namespace Artwork

open Float.Model (Format UnpackedFloat totalExponent)
open Float.Model.UnpackedFloat

/-! ### Products and quotients -/

theorem nearest_of_eq_zero {v r : ℚ} (hv : v = 0) (hr : r = 0) : Nearest v r :=
  ⟨-1074, 0, le_rfl, Or.inl rfl, by simp [hv], by simp [hr]⟩

theorem apply_one_mul (s t : Sign) :
    (((s * t).apply 1 : ℤ) : ℚ) = (s.apply 1 : ℤ) * (t.apply 1 : ℤ) := by
  have hsign : (s * t).apply 1 = s.apply 1 * t.apply 1 := by cases s <;> cases t <;> rfl
  exact_mod_cast hsign

theorem apply_one_div (s t : Sign) :
    (((s / t).apply 1 : ℤ) : ℚ) = (s.apply 1 : ℤ) / (t.apply 1 : ℤ) := by
  have hsign : (s / t).apply 1 = s.apply 1 * t.apply 1 := by cases s <;> cases t <;> rfl
  have hinv : (1 : ℚ) / (t.apply 1 : ℤ) = (t.apply 1 : ℤ) := by cases t <;> norm_num [Sign.apply]
  rw [hsign, div_eq_mul_one_div, hinv]
  exact_mod_cast rfl

theorem scaled_nonneg (m : Nat) (e : Int) : (0 : ℚ) ≤ m * 2 ^ e := by
  positivity

@[simp] theorem unpackedValue_zero (s : Sign) : unpackedValue (.zero s) = 0 := rfl

theorem unpackedValue_finite (s : Sign) (m : Nat) (e : Int) (hm : 0 < m) :
    unpackedValue (.finite s m e hm) = s.apply 1 * (m * 2 ^ e) := by
  rw [unpackedValue, apply_mul, mul_assoc]

/-- A product is **rounded to the nearest**. -/
theorem nearest_mul {u v : UnpackedFloat} (hu : IsDouble u) (hv : IsDouble v)
    (hbound : |unpackedValue u * unpackedValue v| < 2 ^ 1023) :
    IsDouble (UnpackedFloat.mul .binary64 u v) ∧
      Nearest (unpackedValue u * unpackedValue v)
        (unpackedValue (UnpackedFloat.mul .binary64 u v)) := by
  cases u with
  | notANumber => cases hu
  | infinity s => cases hu
  | zero s =>
      cases v with
      | notANumber => cases hv
      | infinity t => cases hv
      | zero t => exact ⟨trivial, nearest_of_eq_zero (zero_mul _) rfl⟩
      | finite t n f hn => exact ⟨trivial, nearest_of_eq_zero (zero_mul _) rfl⟩
  | finite s m e hm =>
      cases v with
      | notANumber => cases hv
      | infinity t => cases hv
      | zero t => exact ⟨trivial, nearest_of_eq_zero (mul_zero _) rfl⟩
      | finite t n f hn =>
          have hexact : unpackedValue (.finite s m e hm) * unpackedValue (.finite t n f hn) =
              (s * t).apply 1 * (((m * n : ℕ) + 0) * 2 ^ (e + f)) := by
            rw [unpackedValue_finite, unpackedValue_finite, apply_one_mul, zpow_add₀ two_ne_zero]
            push_cast
            ring
          have hplaces : e + f ≤ -1074 ∨ 2 ^ 52 ≤ m * n := by
            obtain ⟨-, -, -, hm'⟩ := hu
            obtain ⟨-, -, -, hn'⟩ := hv
            rcases hm' with hm' | rfl
            · exact Or.inr (hm'.trans (Nat.le_mul_of_pos_right m hn))
            rcases hn' with hn' | rfl
            · exact Or.inr (hn'.trans (Nat.le_mul_of_pos_left n hm))
            · exact Or.inl (by omega)
          have hnonneg : (0 : ℚ) ≤ ((m * n : ℕ) + 0) * 2 ^ (e + f) := by
            rw [add_zero]
            exact scaled_nonneg ..
          rw [hexact, abs_apply_mul _ hnonneg] at hbound
          rw [hexact]
          exact nearest_roundWithAccuracy (s * t) (a := .exact) (t := 0) rfl hplaces hbound

/-- The remainder of a division is what is cut off the quotient. -/
theorem cutOff_accuracyOfFraction {n d : Nat} (h : n < d) :
    CutOff (accuracyOfFraction n d) (n / d) := by
  have hd : (0 : ℚ) < d := by exact_mod_cast Nat.zero_lt_of_lt h
  have hlt : (n : ℚ) < d := by exact_mod_cast h
  unfold accuracyOfFraction
  split
  · next hzero => simp [CutOff, hzero]
  · next hzero =>
      have hpos : (0 : ℚ) < n := by exact_mod_cast Nat.pos_of_ne_zero hzero
      rcases hcompare : compare (2 * n) d with _ | _ | _
      · have hhalf : (2 * n : ℚ) < d := by exact_mod_cast Nat.compare_eq_lt.1 hcompare
        refine ⟨by positivity, ?_⟩
        rw [div_lt_div_iff₀ hd two_pos]
        linarith
      · have hhalf : (2 * n : ℚ) = d := by exact_mod_cast Nat.compare_eq_eq.1 hcompare
        refine (div_eq_div_iff hd.ne' two_ne_zero).2 ?_
        linarith
      · have hhalf : (d : ℚ) < 2 * n := by exact_mod_cast Nat.compare_eq_gt.1 hcompare
        refine ⟨?_, (div_lt_one hd).2 hlt⟩
        rw [div_lt_div_iff₀ two_pos hd]
        linarith

/-- What is computed of a quotient and what is cut off are the whole quotient, and it is computed to 53
places at least, or down to the lowest place of all. -/
theorem divCore_spec {m n : Nat} (e f : Int) (hm : 0 < m) (hn : 0 < n) :
    ∃ t, CutOff (divCore .binary64 m e n f).2.2 t ∧
      ((divCore .binary64 m e n f).2.1 ≤ -1074 ∨ 2 ^ 52 ≤ (divCore .binary64 m e n f).1) ∧
      (((divCore .binary64 m e n f).1 : ℚ) + t) * 2 ^ (divCore .binary64 m e n f).2.1 =
        m * 2 ^ e / (n * 2 ^ f) := by
  have htarget : Format.binary64.targetExponent (totalExponent m e - totalExponent n f) =
      max (m.log2 + 1 + e - (n.log2 + 1 + f) - 53) (-1074) := rfl
  unfold divCore
  dsimp only
  rw [htarget]
  generalize hk : min (e - f) (max (m.log2 + 1 + e - (n.log2 + 1 + f) - 53) (-1074)) = k
  obtain ⟨d, hd⟩ := Int.le.dest (show k ≤ e - f by omega)
  rw [← hd, add_sub_cancel_left, Int.toNat_natCast, Nat.shiftLeft_eq]
  have hnpos : (0 : ℚ) < n := by exact_mod_cast hn
  refine ⟨((m * 2 ^ d % n : ℕ) : ℚ) / n, ?_, ?_, ?_⟩
  · exact cutOff_accuracyOfFraction (Nat.mod_lt _ hn)
  · rcases Int.lt_or_le (-1074) k with hlow | hlow
    · refine Or.inr ((Nat.le_div_iff_mul_le hn).2 ?_)
      have hexp : 52 + (n.log2 + 1) ≤ m.log2 + d := by omega
      calc 2 ^ 52 * n ≤ 2 ^ 52 * 2 ^ (n.log2 + 1) := by
            gcongr
            exact Nat.lt_log2_self.le
        _ = 2 ^ (52 + (n.log2 + 1)) := (pow_add ..).symm
        _ ≤ 2 ^ (m.log2 + d) := Nat.pow_le_pow_right two_pos hexp
        _ = 2 ^ m.log2 * 2 ^ d := pow_add ..
        _ ≤ m * 2 ^ d := by
            gcongr
            exact Nat.log2_self_le hm.ne'
    · exact Or.inl hlow
  · have hdiv : ((m * 2 ^ d / n : ℕ) : ℚ) + ((m * 2 ^ d % n : ℕ) : ℚ) / n = m * 2 ^ d / n := by
      have hsplit : ((m * 2 ^ d / n : ℕ) : ℚ) * n + ((m * 2 ^ d % n : ℕ) : ℚ) = m * 2 ^ d := by
        exact_mod_cast Nat.div_add_mod' (m * 2 ^ d) n
      field_simp
      exact hsplit
    have hexp : (2 : ℚ) ^ d * 2 ^ k = 2 ^ e / 2 ^ f := by
      rw [← zpow_sub₀ two_ne_zero, ← hd, zpow_add₀ two_ne_zero, zpow_natCast, mul_comm]
    rw [hdiv]
    calc (m * 2 ^ d / n * 2 ^ k : ℚ) = m / n * (2 ^ d * 2 ^ k) := by ring
      _ = m / n * (2 ^ e / 2 ^ f) := by rw [hexp]
      _ = m * 2 ^ e / (n * 2 ^ f) := by rw [div_mul_div_comm]

/-- A quotient is **rounded to the nearest**. -/
theorem nearest_div {u v : UnpackedFloat} (hu : IsDouble u) (hv : IsDouble v)
    (hne : unpackedValue v ≠ 0) (hbound : |unpackedValue u / unpackedValue v| < 2 ^ 1023) :
    IsDouble (UnpackedFloat.div .binary64 u v) ∧
      Nearest (unpackedValue u / unpackedValue v)
        (unpackedValue (UnpackedFloat.div .binary64 u v)) := by
  cases v with
  | notANumber => cases hv
  | infinity t => cases hv
  | zero t => exact absurd rfl hne
  | finite t n f hn =>
      cases u with
      | notANumber => cases hu
      | infinity s => cases hu
      | zero s => exact ⟨trivial, nearest_of_eq_zero (zero_div _) rfl⟩
      | finite s m e hm =>
          obtain ⟨rest, hcut, hplaces, hvalue⟩ := divCore_spec e f hm hn
          have hexact : unpackedValue (.finite s m e hm) / unpackedValue (.finite t n f hn) =
              (s / t).apply 1 * (m * 2 ^ e / (n * 2 ^ f)) := by
            rw [unpackedValue_finite, unpackedValue_finite, apply_one_div, div_mul_div_comm]
          have hnonneg : (0 : ℚ) ≤ m * 2 ^ e / (n * 2 ^ f) :=
            div_nonneg (scaled_nonneg ..) (scaled_nonneg ..)
          rw [hexact, abs_apply_mul _ hnonneg, ← hvalue] at hbound
          rw [hexact, ← hvalue]
          exact nearest_roundWithAccuracy (s / t) hcut hplaces hbound

/-! ### The bits of a double -/

/-- A double from its three fields. -/
def ofFields (s : Sign) (e : BitVec 11) (m : BitVec 52) : UnpackedFloat :=
  if e = -1#11 then if m = 0#52 then .infinity s else .notANumber
  else if e = 0#11 then
    if h : m = 0#52 then .zero s
    else .finite s m.toNat (-1074) (Nat.pos_of_ne_zero fun hzero => h (BitVec.eq_of_toNat_eq hzero))
  else .finite s (2 ^ 52 + m.toNat) (e.toNat - 1075) (by omega)

theorem toNat_implicit_append (m : BitVec 52) : (1#1 ++ m).toNat = 2 ^ 52 + m.toNat := by
  rw [BitVec.toNat_append, ← Nat.shiftLeft_add_eq_or_of_lt m.isLt]
  rfl

theorem unpack_eq (b : BitVec 64) :
    unpack .binary64 b =
      ofFields (Sign.ofBitVec (@unpackSign .binary64 b)) (@unpackExponent .binary64 b)
        (@unpackMantissa .binary64 b) := by
  have hbias : ((Format.binary64.exponentBias : Int) + (52 : ℕ)) = 1075 := by decide
  unfold Float.Model.UnpackedFloat.unpack ofFields
  simp only [hbias, toNat_implicit_append]
  split_ifs with htop hm hlow hm
  · rfl
  · rfl
  · rfl
  · congr 1
    rw [hlow]
    rfl
  · rfl

theorem unpackSign_packComponents {S : Format} (s : Sign) (e : BitVec S.exponentBits)
    (m : BitVec S.mantissaBitsWithoutImplicit) :
    unpackSign (packComponents S s e m) = s.toBitVec := by
  apply BitVec.eq_of_getLsbD_eq
  intro i hi
  obtain rfl : i = 0 := by omega
  simp [unpackSign, packComponents, BitVec.getLsbD_append, BitVec.getElem_append]

theorem unpack_packComponents (s : Sign) (e : BitVec 11) (m : BitVec 52) :
    unpack .binary64 (packComponents .binary64 s e m) = ofFields s e m := by
  have hsign : Sign.ofBitVec s.toBitVec = s := by cases s <;> rfl
  rw [unpack_eq, unpackMantissa_packComponents, unpackExponent_packComponents,
    unpackSign_packComponents, hsign]

theorem isDouble_ofFields (s : Sign) (e : BitVec 11) (m : BitVec 52)
    (h : (ofFields s e m).isFinite = true) : IsDouble (ofFields s e m) := by
  have hm := m.isLt
  have he := e.isLt
  unfold ofFields at h ⊢
  split_ifs at h ⊢ with htop hm0 hlow hm0
  · cases h
  · cases h
  · exact trivial
  · exact ⟨by omega, le_rfl, by omega, Or.inr rfl⟩
  · have htop' : e.toNat ≠ 2047 := fun heq => htop (BitVec.eq_of_toNat_eq heq)
    have hlow' : e.toNat ≠ 0 := fun heq => hlow (BitVec.eq_of_toNat_eq heq)
    exact ⟨by omega, by omega, by omega, Or.inl (by omega)⟩

/-- Every double that is neither infinite nor undefined is in its normal form. -/
theorem isDouble_unpack {b : BitVec 64} (h : (unpack .binary64 b).isFinite = true) :
    IsDouble (unpack .binary64 b) := by
  rw [unpack_eq] at h ⊢
  exact isDouble_ofFields _ _ _ h

/-- The normal form of a double **is not lost** in its bits. -/
theorem unpack_pack {u : UnpackedFloat} (hu : IsDouble u) :
    unpack .binary64 (pack .binary64 u) = u := by
  cases u with
  | notANumber => cases hu
  | infinity s => cases hu
  | zero s => exact unpack_packComponents s 0#11 0#52
  | finite s m e hm =>
      obtain ⟨hm', he, he', hplace⟩ := hu
      have hbias : (Format.binary64.exponentBias : Int) = 1023 := by decide
      have hbits : Format.binary64.mantissaBits = 53 := by decide
      have hlow := Nat.log2_self_le hm.ne'
      unfold Float.Model.UnpackedFloat.pack
      dsimp only
      rw [if_neg (by rw [hbias]; omega)]
      rcases Nat.lt_or_ge m (2 ^ 52) with hlt | hge
      · have hlog := (Nat.log2_lt hm.ne').2 hlt
        have hnat : (BitVec.ofNat 52 m).toNat = m := by
          rw [BitVec.toNat_ofNat, Nat.mod_eq_of_lt hlt]
        have hne : BitVec.ofNat 52 m ≠ 0#52 := by
          intro heq
          rw [heq, BitVec.toNat_zero] at hnat
          omega
        obtain rfl : e = -1074 := by omega
        rw [if_neg (by omega), unpack_packComponents, ofFields, if_neg (by decide), if_pos rfl,
          dif_neg hne]
        simp only [hnat]
      · have hlog := (Nat.le_log2 hm.ne').2 hge
        have hlog' := (Nat.log2_lt hm.ne').2 hm'
        have hnat : 2 ^ 52 + (BitVec.ofNat 52 m).toNat = m := by
          rw [BitVec.toNat_ofNat]
          omega
        rw [if_pos (by omega), hbias, unpack_packComponents]
        generalize hk : (e + 1023 + (52 : ℕ)).toNat = k
        have hexp : (BitVec.ofNat 11 k).toNat = k := by
          rw [BitVec.toNat_ofNat, Nat.mod_eq_of_lt (by omega)]
        have htop : BitVec.ofNat 11 k ≠ -1#11 := by
          intro heq
          have hall : (-1#11).toNat = 2047 := by decide
          rw [heq] at hexp
          omega
        have hbottom : BitVec.ofNat 11 k ≠ 0#11 := by
          intro heq
          rw [heq, BitVec.toNat_zero] at hexp
          omega
        rw [ofFields, if_neg htop, if_neg hbottom]
        simp only [hexp, hnat]
        congr 1
        omega

/-- An unpacked double as it is read off its bits. -/
def ofUnpacked : UnpackedFloat → Binary
  | .notANumber => .undefined
  | .infinity s => .infinite (s == .negative)
  | .zero s => .finite (s == .negative) 0 (-1074)
  | .finite s m e _ => .finite (s == .negative) m e

theorem ofUnpacked_ofFields (s : Sign) (e : BitVec 11) (m : BitVec 52) :
    ofUnpacked (ofFields s e m) =
      if e.toNat == 2047 then if m.toNat == 0 then .infinite (s == .negative) else .undefined
      else if e.toNat == 0 then .finite (s == .negative) m.toNat (-1074)
      else .finite (s == .negative) (4503599627370496 + m.toNat) ((e.toNat : Int) - 1075) := by
  have htop : (e.toNat == 2047) = true ↔ e = -1#11 := by
    rw [beq_iff_eq, ← BitVec.toNat_inj]
    rfl
  have hlow : (e.toNat == 0) = true ↔ e = 0#11 := by
    rw [beq_iff_eq, ← BitVec.toNat_inj]
    rfl
  have hzero : (m.toNat == 0) = true ↔ m = 0#52 := by
    rw [beq_iff_eq, ← BitVec.toNat_inj]
    rfl
  simp only [htop, hlow, hzero]
  unfold ofFields
  split_ifs with h1 h2 h3 h4
  · rfl
  · rfl
  · rw [h4]
    rfl
  · rfl
  · rfl

theorem ofFloat_eq (x : Float) : Binary.ofFloat x = ofUnpacked x.toModel.unpack := by
  have hbits : x.toBits.toNat = x.toModel.toBits.toBitVec.toNat := rfl
  have hlt := x.toModel.toBits.toBitVec.isLt
  have hmantissa : (@unpackMantissa .binary64 x.toModel.toBits.toBitVec).toNat =
      x.toBits.toNat % 4503599627370496 := by
    simp [unpackMantissa, hbits]
  have hexponent : (@unpackExponent .binary64 x.toModel.toBits.toBitVec).toNat =
      (x.toBits.toNat >>> 52) % 2048 := by
    simp [unpackExponent, hbits]
  have hnat : (@unpackSign .binary64 x.toModel.toBits.toBitVec).toNat = x.toBits.toNat >>> 63 := by
    simp only [unpackSign, BitVec.toNat_cast, BitVec.extractLsb_toNat, hbits]
    refine Nat.mod_eq_of_lt ?_
    rw [Nat.shiftRight_eq_div_pow]
    exact Nat.div_lt_of_lt_mul hlt
  have hsign (b : BitVec 1) : (Sign.ofBitVec b == .negative) = (b.toNat == 1) := by
    decide +revert
  rw [Float.Model.unpack, unpack_eq, ofUnpacked_ofFields, hsign, hnat, hmantissa, hexponent]
  rfl

/-! ### Doubles -/

/-- The number that a double **stands for**, if it is finite. -/
def floatValue (x : Float) : ℚ :=
  unpackedValue x.toModel.unpack

theorem isDouble_toModel {x : Float} (hx : x.isFinite = true) : IsDouble x.toModel.unpack :=
  isDouble_unpack hx

theorem isFinite_of_isDouble {u : UnpackedFloat} (hu : IsDouble u) : u.isFinite = true := by
  cases u with
  | notANumber => cases hu
  | infinity s => cases hu
  | zero s => rfl
  | finite s m e hm => rfl

/-- A double that is packed from its normal form stands for the same number. -/
theorem floatValue_of_pack {x : Float} {u : UnpackedFloat} (hx : x.toModel = .pack u)
    (hu : IsDouble u) : x.isFinite = true ∧ floatValue x = unpackedValue u := by
  have hunpack : x.toModel.unpack = u := by
    rw [hx]
    exact unpack_pack hu
  refine ⟨?_, by rw [floatValue, hunpack]⟩
  have hfinite := isFinite_of_isDouble hu
  rw [← hunpack] at hfinite
  exact hfinite

theorem nearest_float_mul {x y : Float} (hx : x.isFinite = true) (hy : y.isFinite = true)
    (hbound : |floatValue x * floatValue y| < 2 ^ 1023) :
    (x * y).isFinite = true ∧ Nearest (floatValue x * floatValue y) (floatValue (x * y)) := by
  obtain ⟨hdouble, hnear⟩ := nearest_mul (isDouble_toModel hx) (isDouble_toModel hy) hbound
  have hpack : (x * y).toModel = .pack (mul .binary64 x.toModel.unpack y.toModel.unpack) := rfl
  obtain ⟨hfinite, hvalue⟩ := floatValue_of_pack hpack hdouble
  exact ⟨hfinite, hvalue ▸ hnear⟩

theorem nearest_float_div {x y : Float} (hx : x.isFinite = true) (hy : y.isFinite = true)
    (hne : floatValue y ≠ 0) (hbound : |floatValue x / floatValue y| < 2 ^ 1023) :
    (x / y).isFinite = true ∧ Nearest (floatValue x / floatValue y) (floatValue (x / y)) := by
  obtain ⟨hdouble, hnear⟩ := nearest_div (isDouble_toModel hx) (isDouble_toModel hy) hne hbound
  have hpack : (x / y).toModel = .pack (div .binary64 x.toModel.unpack y.toModel.unpack) := rfl
  obtain ⟨hfinite, hvalue⟩ := floatValue_of_pack hpack hdouble
  exact ⟨hfinite, hvalue ▸ hnear⟩

theorem floatValue_neg {x : Float} (hx : x.isFinite = true) :
    (-x).isFinite = true ∧ floatValue (-x) = -floatValue x := by
  have hpack : (-x).toModel = .pack x.toModel.unpack.neg := rfl
  have hu := isDouble_toModel hx
  have hneg : IsDouble x.toModel.unpack.neg ∧
      unpackedValue x.toModel.unpack.neg = -unpackedValue x.toModel.unpack := by
    generalize x.toModel.unpack = u at hu
    cases u with
    | notANumber => cases hu
    | infinity s => cases hu
    | zero s => exact ⟨trivial, neg_zero.symm⟩
    | finite s m e hm =>
        refine ⟨hu, ?_⟩
        have hsign : (-s).apply (m : Int) = -s.apply m := by
          cases s with
          | negative => exact (neg_neg _).symm
          | positive => rfl
        rw [UnpackedFloat.neg, unpackedValue, unpackedValue, hsign]
        push_cast
        ring
  obtain ⟨hfinite, hvalue⟩ := floatValue_of_pack hpack hneg.1
  exact ⟨hfinite, hvalue.trans hneg.2⟩

/-! ### Exact numbers -/

/-- The number that the exact form of a double **stands for**. -/
def Binary.value : Binary → ℚ
  | finite negative m e => (if negative then -1 else 1) * (m * 2 ^ e)
  | _ => 0

theorem value_ofUnpacked (u : UnpackedFloat) : (ofUnpacked u).value = unpackedValue u := by
  cases u with
  | notANumber => rfl
  | infinity s => rfl
  | zero s => simp [ofUnpacked, Binary.value, unpackedValue]
  | finite s m e hm =>
      rw [unpackedValue_finite]
      cases s <;> simp [ofUnpacked, Binary.value, Sign.apply]

/-- The exact form of a double stands for the same number. -/
theorem value_ofFloat (x : Float) : (Binary.ofFloat x).value = floatValue x := by
  rw [ofFloat_eq, value_ofUnpacked, floatValue]

theorem isFinite_ofFloat (x : Float) : (Binary.ofFloat x).isFinite = x.isFinite := by
  rw [ofFloat_eq]
  unfold Float.isFinite Float.Model.isFinite
  cases x.toModel.unpack <;> rfl

theorem compare_natCast_zero {n : Nat} (hn : 0 < n) : compare (n : Int) 0 = .gt :=
  Int.compare_eq_gt.2 (by exact_mod_cast hn)

theorem abs_natCast_lt {n : Nat} (hn : n < 2 ^ 53) : |(n : ℚ)| < 2 ^ 53 := by
  rw [abs_of_nonneg (Nat.cast_nonneg n)]
  exact_mod_cast hn

/-- A whole number of up to 53 places is the number it is rounded to. -/
theorem Nearest.eq_natCast {n : Nat} {r : ℚ} (h : Nearest n r) (hn : n < 2 ^ 53) : r = n :=
  h.eq_self (k := 0) (j := n) (by decide) (abs_natCast_lt hn).le (by simp)

theorem unpackedValue_ofNat {n : Nat} (hn : n < 2 ^ 53) :
    IsDouble (UnpackedFloat.ofNat .binary64 n) ∧
      unpackedValue (UnpackedFloat.ofNat .binary64 n) = n := by
  rcases Nat.eq_zero_or_pos n with rfl | hpos
  · exact ⟨trivial, rfl⟩
  -- the mantissa is shifted up until it has 53 places
  obtain ⟨d, hd⟩ := Nat.exists_eq_add_of_le (Nat.le_of_lt_succ ((Nat.log2_lt hpos.ne').2 hn))
  have hround : UnpackedFloat.ofNat .binary64 n =
      roundWithAccuracy .binary64 .positive (n <<< d) (-d) .exact := by
    have htarget : (0 - Format.binary64.targetExponent (totalExponent n 0)).toNat = d := by
      rw [targetExponent_eq]
      omega
    unfold UnpackedFloat.ofNat ofInt UnpackedFloat.normalize
    rw [compare_natCast_zero hpos]
    dsimp only
    unfold UnpackedFloat.round decreaseExponent
    dsimp only
    rw [Int.toNat_natCast, htarget, zero_sub]
  have hplaces : 2 ^ 52 ≤ n <<< d := by
    rw [Nat.shiftLeft_eq, hd, pow_add]
    gcongr
    exact Nat.log2_self_le hpos.ne'
  have hexact : ((n <<< d : ℕ) + 0 : ℚ) * 2 ^ (-d : ℤ) = n := by
    rw [Nat.shiftLeft_eq, add_zero, zpow_neg, zpow_natCast]
    push_cast
    field_simp
  have hbound : (n : ℚ) < 2 ^ 53 := by exact_mod_cast hn
  obtain ⟨hdouble, hnear⟩ := nearest_roundWithAccuracy .positive (a := .exact) (t := 0) rfl
    (Or.inr hplaces) (by rw [hexact]; exact hbound.trans (pow_lt_pow_right₀ one_lt_two (by decide)))
  rw [hexact, ← hround, Sign.apply, Int.cast_one, one_mul] at hnear
  rw [← hround] at hdouble
  exact ⟨hdouble, hnear.eq_natCast hn⟩

theorem floatValue_of_ofFloat {x : Float} {negative : Bool} {m : Nat} {e : Int}
    (h : Binary.ofFloat x = .finite negative m e) :
    x.isFinite = true ∧ floatValue x = (if negative then -1 else 1) * (m * 2 ^ e) := by
  constructor
  · rw [← isFinite_ofFloat, h]
    rfl
  · rw [← value_ofFloat, h, Binary.value]

/-- Whole numbers of **up to 53 places** are doubles. -/
theorem floatValue_ofNat {n : Nat} (hn : n < 2 ^ 53) :
    (Float.ofNat n).isFinite = true ∧ floatValue (Float.ofNat n) = n := by
  have hone : Binary.ofFloat (Float.ofBits 0x3FF0000000000000) = .finite false (2 ^ 52) (-52) := by
    decide +kernel
  obtain ⟨hfinite, hvalue⟩ := floatValue_of_ofFloat hone
  have hone' : floatValue (Float.ofBits 0x3FF0000000000000) = 1 := by
    rw [hvalue]
    norm_num
  have hmul : Float.ofNat n = n.toUInt64.toFloat * Float.ofBits 0x3FF0000000000000 := by
    unfold Float.ofNat
    exact dif_pos ⟨hn, by decide⟩
  have hword : n.toUInt64.toNat = n := UInt64.toNat_ofNat_of_lt (hn.trans (by decide))
  have hpack : n.toUInt64.toFloat.toModel = .pack (UnpackedFloat.ofNat .binary64 n) := by
    conv_rhs => rw [← hword]
    rfl
  obtain ⟨hdouble, hcast⟩ := unpackedValue_ofNat hn
  obtain ⟨hfinite', hcast'⟩ := floatValue_of_pack hpack hdouble
  have hproduct :
      floatValue n.toUInt64.toFloat * floatValue (Float.ofBits 0x3FF0000000000000) = n := by
    rw [hcast', hcast, hone', mul_one]
  obtain ⟨hfin, hnear⟩ := nearest_float_mul hfinite' hfinite (by
    rw [hproduct]
    exact (abs_natCast_lt hn).trans (pow_lt_pow_right₀ one_lt_two (by decide)))
  rw [hproduct, ← hmul] at hnear
  rw [← hmul] at hfin
  exact ⟨hfin, hnear.eq_natCast hn⟩

/-! ### Comparisons -/

/-- In the normal form the exponent counts before the mantissa. -/
theorem scaled_lt_of_lt {s t : Sign} {m n : Nat} {e f : Int} {hm : 0 < m} {hn : 0 < n}
    (hu : IsDouble (.finite s m e hm)) (hv : IsDouble (.finite t n f hn))
    (h : e < f ∨ e = f ∧ m < n) : (m * 2 ^ e : ℚ) < n * 2 ^ f := by
  obtain ⟨hm', he, -, -⟩ := hu
  obtain ⟨-, -, -, hn'⟩ := hv
  rcases h with hlt | ⟨rfl, hlt⟩
  · have hlong : ((2 ^ 52 : ℕ) : ℚ) ≤ n := by exact_mod_cast hn'.resolve_right (by omega)
    have hshort : (m : ℚ) < ((2 ^ 53 : ℕ) : ℚ) := by exact_mod_cast hm'
    calc (m * 2 ^ e : ℚ) < ((2 ^ 53 : ℕ) : ℚ) * 2 ^ e := by gcongr
      _ = ((2 ^ 52 : ℕ) : ℚ) * 2 ^ (e + 1) := by
          rw [zpow_add_one₀ two_ne_zero]
          push_cast
          ring
      _ ≤ n * 2 ^ f := by
          gcongr
          · norm_num
          · omega
  · gcongr

theorem scaled_inj {s t : Sign} {m n : Nat} {e f : Int} {hm : 0 < m} {hn : 0 < n}
    (hu : IsDouble (.finite s m e hm)) (hv : IsDouble (.finite t n f hn))
    (h : (m * 2 ^ e : ℚ) = n * 2 ^ f) : m = n ∧ e = f := by
  have hexp : e = f := by
    rcases lt_trichotomy e f with hlt | heq | hlt
    · exact absurd h (scaled_lt_of_lt hu hv (Or.inl hlt)).ne
    · exact heq
    · exact absurd h (scaled_lt_of_lt hv hu (Or.inl hlt)).ne'
  rw [hexp] at h
  have hmantissa : (m : ℚ) = n := mul_right_cancel₀ (by positivity) h
  exact ⟨by exact_mod_cast hmantissa, hexp⟩

theorem scaled_le_of_isLE {s t : Sign} {m n : Nat} {e f : Int} {hm : 0 < m} {hn : 0 < n}
    (hu : IsDouble (.finite s m e hm)) (hv : IsDouble (.finite t n f hn))
    (h : ((compare e f).then (compare m n)).isLE = true) : (m * 2 ^ e : ℚ) ≤ n * 2 ^ f := by
  rw [Ordering.isLE_then_iff_or, Int.compare_eq_lt, Int.compare_eq_eq, Nat.isLE_compare] at h
  rcases h with hlt | ⟨heq, hle⟩
  · exact (scaled_lt_of_lt hu hv (Or.inl hlt)).le
  · rcases Nat.lt_or_eq_of_le hle with hlt | rfl
    · exact (scaled_lt_of_lt hu hv (Or.inr ⟨heq, hlt⟩)).le
    · rw [heq]

theorem unpackedValue_positive (m : Nat) (e : Int) (hm : 0 < m) :
    unpackedValue (.finite .positive m e hm) = m * 2 ^ e := by
  rw [unpackedValue_finite, Sign.apply, Int.cast_one, one_mul]

theorem unpackedValue_negative (m : Nat) (e : Int) (hm : 0 < m) :
    unpackedValue (.finite .negative m e hm) = -(m * 2 ^ e) := by
  rw [unpackedValue_finite, Sign.apply, Int.cast_neg, Int.cast_one, neg_one_mul]

theorem scaled_pos {m : Nat} (hm : 0 < m) (e : Int) : (0 : ℚ) < m * 2 ^ e := by
  positivity

/-- Of two doubles in normal form, the lesser or equal one stands for the lesser or equal number. -/
theorem unpackedValue_le_of_le {u v : UnpackedFloat} (hu : IsDouble u) (hv : IsDouble v)
    (h : u.le v = true) : unpackedValue u ≤ unpackedValue v := by
  cases u with
  | notANumber => cases hu
  | infinity s => cases hu
  | zero s =>
      cases v with
      | notANumber => cases hv
      | infinity t => cases hv
      | zero t => exact le_rfl
      | finite t n f hn =>
          cases t with
          | negative => cases h
          | positive =>
              rw [unpackedValue_positive]
              exact (scaled_pos hn f).le
  | finite s m e hm =>
      cases v with
      | notANumber => cases hv
      | infinity t => cases s <;> cases hv
      | zero t =>
          cases s with
          | negative =>
              rw [unpackedValue_negative]
              exact neg_nonpos.2 (scaled_pos hm e).le
          | positive => cases h
      | finite t n f hn =>
          cases s <;> cases t
          · rw [unpackedValue_negative, unpackedValue_negative, neg_le_neg_iff]
            have hswap : ((compare e f).then (compare m n)).swap.isLE = true := h
            rw [Ordering.swap_then, Int.compare_swap, Nat.compare_swap] at hswap
            exact scaled_le_of_isLE hv hu hswap
          · rw [unpackedValue_negative, unpackedValue_positive]
            linarith [scaled_pos hm e, scaled_pos hn f]
          · cases h
          · rw [unpackedValue_positive, unpackedValue_positive]
            exact scaled_le_of_isLE hu hv h

/-- Two doubles in normal form stand for the same number exactly if they are the same, but for the sign
of a zero. -/
theorem comparable?_eq_iff {u v : UnpackedFloat} (hu : IsDouble u) (hv : IsDouble v) :
    comparable? u = comparable? v ↔ unpackedValue u = unpackedValue v := by
  cases u with
  | notANumber => cases hu
  | infinity s => cases hu
  | zero s =>
      cases v with
      | notANumber => cases hv
      | infinity t => cases hv
      | zero t => exact iff_of_true rfl rfl
      | finite t n f hn =>
          have hpos := scaled_pos hn f
          refine iff_of_false nofun fun h => ?_
          cases t
          · rw [unpackedValue_negative] at h
            linarith [unpackedValue_zero s]
          · rw [unpackedValue_positive] at h
            linarith [unpackedValue_zero s]
  | finite s m e hm =>
      have hpos := scaled_pos hm e
      cases v with
      | notANumber => cases hv
      | infinity t => cases hv
      | zero t =>
          refine iff_of_false nofun fun h => ?_
          cases s
          · rw [unpackedValue_negative] at h
            linarith [unpackedValue_zero t]
          · rw [unpackedValue_positive] at h
            linarith [unpackedValue_zero t]
      | finite t n f hn =>
          have hpos' := scaled_pos hn f
          constructor
          · intro h
            exact congrArg unpackedValue (Option.some.inj h)
          · intro h
            cases s <;> cases t <;>
              simp only [unpackedValue_negative, unpackedValue_positive, neg_inj] at h
            · obtain ⟨rfl, rfl⟩ := scaled_inj hu hv h
              rfl
            · linarith
            · linarith
            · obtain ⟨rfl, rfl⟩ := scaled_inj hu hv h
              rfl

theorem float_le_iff (x y : Float) :
    x ≤ y ↔ x.toModel.unpack.le y.toModel.unpack = true := by
  change decide (x.toModel ≤ y.toModel) = true ↔ _
  exact decide_eq_true_iff

/-- Of two finite doubles the lesser or equal one **stands for the lesser or equal number**. -/
theorem floatValue_le_of_le {x y : Float} (hx : x.isFinite = true) (hy : y.isFinite = true)
    (h : x ≤ y) : floatValue x ≤ floatValue y :=
  unpackedValue_le_of_le (isDouble_toModel hx) (isDouble_toModel hy) ((float_le_iff x y).1 h)

/-- What lies between finite doubles is finite. -/
theorem isFinite_of_le_of_le {x y z : Float} (hx : x.isFinite = true) (hz : z.isFinite = true)
    (hxy : x ≤ y) (hyz : y ≤ z) : y.isFinite = true := by
  have hxy' : x.toModel.unpack.le y.toModel.unpack = true := (float_le_iff x y).1 hxy
  have hyz' : y.toModel.unpack.le z.toModel.unpack = true := (float_le_iff y z).1 hyz
  have hx' : x.toModel.unpack.isFinite = true := hx
  have hz' : z.toModel.unpack.isFinite = true := hz
  change y.toModel.unpack.isFinite = true
  generalize x.toModel.unpack = u at *
  generalize y.toModel.unpack = v at *
  generalize z.toModel.unpack = w at *
  cases v with
  | notANumber => cases u <;> cases hxy'
  | infinity s =>
      cases s with
      | negative =>
        cases u with
        | notANumber => cases hx'
        | infinity t => cases hx'
        | zero t => cases hxy'
        | finite t m e hm => cases t <;> cases hxy'
      | positive =>
        cases w with
        | notANumber => cases hz'
        | infinity t => cases hz'
        | zero t => cases hyz'
        | finite t m e hm => cases t <;> cases hyz'
  | zero s => rfl
  | finite s m e hm => rfl

/-- Finite doubles compare as equal **exactly if they stand for the same number**. -/
theorem beq_iff_floatValue_eq {x y : Float} (hx : x.isFinite = true) (hy : y.isFinite = true) :
    (x == y) = true ↔ floatValue x = floatValue y := by
  have hdefined : number? x ≠ none := by
    intro hnone
    have hu := isDouble_toModel hx
    unfold number? at hnone
    generalize x.toModel.unpack = u at hu hnone
    cases u with
    | notANumber => cases hu
    | infinity s => cases hu
    | zero s => cases hnone
    | finite s m e hm => cases hnone
  rw [float_beq_iff, and_iff_left hdefined]
  exact comparable?_eq_iff (isDouble_toModel hx) (isDouble_toModel hy)

/-- Doubles that compare as equal have the same form, or both of them are zeros. -/
theorem unpack_eq_or_zero {x y : Float} (h : (x == y) = true) :
    x.toModel.unpack = y.toModel.unpack ∨
      (∃ s, x.toModel.unpack = .zero s) ∧ ∃ t, y.toModel.unpack = .zero t := by
  obtain ⟨heq, hne⟩ := (float_beq_iff x y).1 h
  unfold number? at heq hne
  generalize x.toModel.unpack = u at heq hne ⊢
  generalize y.toModel.unpack = v at heq ⊢
  cases u with
  | notANumber => exact absurd rfl hne
  | zero s =>
      cases v with
      | zero t => exact Or.inr ⟨⟨s, rfl⟩, ⟨t, rfl⟩⟩
      | notANumber => cases heq
      | infinity t => cases heq
      | finite t n f hn => cases heq
  | infinity s =>
      cases v with
      | notANumber => cases heq
      | zero t => cases heq
      | infinity t => exact Or.inl (Option.some.inj heq)
      | finite t n f hn => cases heq
  | finite s m e hm =>
      cases v with
      | notANumber => cases heq
      | zero t => cases heq
      | infinity t => cases heq
      | finite t n f hn => exact Or.inl (Option.some.inj heq)

theorem unpack_eq_of_floatValue_eq {x y : Float} (hx : x.isFinite = true) (hy : y.isFinite = true)
    (h : floatValue x = floatValue y) (hne : floatValue x ≠ 0) :
    x.toModel.unpack = y.toModel.unpack := by
  have hu := isDouble_toModel hx
  have hv := isDouble_toModel hy
  have hcomparable := (comparable?_eq_iff hu hv).2 h
  unfold floatValue at h hne
  generalize x.toModel.unpack = u at hu hcomparable h hne ⊢
  generalize y.toModel.unpack = v at hv hcomparable h ⊢
  cases u with
  | notANumber => cases hu
  | infinity s => cases hu
  | zero s => exact absurd rfl hne
  | finite s m e hm =>
      cases v with
      | notANumber => cases hv
      | infinity t => cases hv
      | zero t => exact absurd h hne
      | finite t n f hn => exact Option.some.inj hcomparable

/-- Dividends that stand for the same number have quotients that do. -/
theorem floatValue_div_congr {x x' y : Float} (hx : x.isFinite = true) (hx' : x'.isFinite = true)
    (hy : y.isFinite = true) (hne : floatValue y ≠ 0) (h : floatValue x = floatValue x') :
    floatValue (x / y) = floatValue (x' / y) := by
  by_cases hzero : floatValue x = 0
  · have hquotient : ∀ z : Float, z.isFinite = true → floatValue z = 0 →
        floatValue (z / y) = 0 := by
      intro z hz hzzero
      have hv : floatValue z / floatValue y = 0 := by rw [hzzero, zero_div]
      obtain ⟨-, hnear⟩ := nearest_float_div hz hy hne (by rw [hv, abs_zero]; positivity)
      rw [hv] at hnear
      exact hnear.eq_zero
    rw [hquotient x hx hzero, hquotient x' hx' (h.symm.trans hzero)]
  · have hunpack := unpack_eq_of_floatValue_eq hx hx' h hzero
    have hmodel : (x / y).toModel = (x' / y).toModel := by
      change Float.Model.pack (div .binary64 x.toModel.unpack y.toModel.unpack) =
        Float.Model.pack (div .binary64 x'.toModel.unpack y.toModel.unpack)
      rw [hunpack]
    rw [floatValue, hmodel, floatValue]

end Artwork
