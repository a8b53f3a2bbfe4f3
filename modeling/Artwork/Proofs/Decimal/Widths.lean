import Artwork.Layer.Builder
import Artwork.Proofs.Decimal.Value

/-!
**Keys of line widths.**

A line width is rounded to a whole number of its fifth places, and back.  Its key is made by the
same product once more, and the question is whether rounding leads to the same whole number.  Up to
`2 ^ 35` in size it does: a quotient by `10 ^ 5` is then off by `2 ^ -19` at most and a product with
it by a quarter, which together is less than half.  So the key is the whole number of fifth
places, and widths with one key are rounded to one double.

Main results:

* `exists_floatValue_roundHalfAway` — rounding to a whole number gives the nearest one, exactly;
* `widthKey_eq_of_beq` — equal widths have one key, **however large they are**;
* `exists_widthKey` — the numbers behind a key;
* `widthKey_roundWidth_eq_iff` — **one key, one rounded width**, up to `2 ^ 35` in size.
-/

set_option relaxedAutoImplicit false
set_option autoImplicit false

namespace Artwork

/-! ### Whole numbers -/

/-- Whole numbers within a half of one number, one of them properly, are equal. -/
theorem eq_of_abs_sub_lt {n k : ℤ} {x : ℚ} (hn : |n - x| ≤ 1 / 2) (hk : |x - k| < 1 / 2) :
    n = k := by
  have hlt : |((n - k : ℤ) : ℚ)| < 1 := by
    push_cast
    calc |(n - k : ℚ)| = |(n - x) + (x - k)| := by rw [sub_add_sub_cancel]
      _ ≤ |n - x| + |x - k| := abs_add_le _ _
      _ < 1 := by linarith
  have hlt' : |n - k| < 1 := by exact_mod_cast hlt
  exact sub_eq_zero.1 (Int.abs_lt_one_iff.1 hlt')

theorem abs_halfAwayShift_sub_le (m : Nat) (e : Int) :
    |(halfAwayShift m e : ℚ) - m * 2 ^ e| ≤ 1 / 2 := by
  cases e with
  | ofNat e =>
      have hexact : (halfAwayShift m (.ofNat e) : ℚ) = m * 2 ^ (Int.ofNat e) := by
        rw [halfAwayShift, Nat.shiftLeft_eq, Int.ofNat_eq_natCast, zpow_natCast]
        push_cast
        rfl
      rw [hexact, sub_self, abs_zero]
      norm_num
  | negSucc e =>
      -- half a place is added, and then what is below the place is dropped
      have hsplit := Nat.div_add_mod (m + 2 ^ e) (2 ^ (e + 1))
      have hrest := Nat.mod_lt (m + 2 ^ e) (Nat.two_pow_pos (e + 1))
      have hnat : halfAwayShift m (.negSucc e) = (m + 2 ^ e) / 2 ^ (e + 1) := by
        rw [halfAwayShift, Nat.shiftRight_eq_div_pow, Nat.one_shiftLeft]
      rw [hnat, zpow_negSucc]
      generalize (m + 2 ^ e) / 2 ^ (e + 1) = q at *
      generalize (m + 2 ^ e) % 2 ^ (e + 1) = r at *
      have hpos : (0 : ℚ) < 2 ^ e := by positivity
      have hsplit' : (2 ^ e * 2 * q + r : ℚ) = m + 2 ^ e := by
        rw [← pow_succ]
        exact_mod_cast hsplit
      have hrest' : (r : ℚ) < 2 ^ e * 2 := by
        rw [← pow_succ]
        exact_mod_cast hrest
      have hnonneg : (0 : ℚ) ≤ r := Nat.cast_nonneg r
      have hunit : (q - m * (2 ^ (e + 1))⁻¹ : ℚ) = (2 ^ e - r) / (2 ^ e * 2) := by
        rw [pow_succ]
        field_simp
        linarith
      rw [hunit, abs_div, abs_of_pos (by positivity : (0 : ℚ) < 2 ^ e * 2),
        div_le_iff₀ (by positivity), abs_le]
      constructor <;> linarith

theorem exists_nearest? {b : Binary} (hb : b.isFinite = true) :
    ∃ n : ℤ, b.nearest? = some n ∧ |n - b.value| ≤ 1 / 2 := by
  cases b with
  | undefined => cases hb
  | infinite negative => cases hb
  | finite negative m e =>
      have hnear := abs_halfAwayShift_sub_le m e
      refine ⟨_, rfl, ?_⟩
      rw [add_zero, Binary.value]
      cases negative with
      | false => simpa using hnear
      | true =>
          rw [abs_sub_comm] at hnear
          simpa [abs_sub_comm, sub_eq_add_neg, add_comm] using hnear

/-- The mantissa that is read off the bits of a double has 53 places at most. -/
theorem mantissa_lt {x : Float} {negative : Bool} {m : Nat} {e : Int}
    (h : Binary.ofFloat x = .finite negative m e) : m < 2 ^ 53 := by
  have hfinite : x.isFinite = true := by
    rw [← isFinite_ofFloat, h]
    rfl
  have hdouble := isDouble_toModel hfinite
  rw [ofFloat_eq] at h
  generalize x.toModel.unpack = u at hdouble h
  cases u with
  | notANumber => cases hdouble
  | infinity s => cases hdouble
  | zero s =>
      obtain ⟨-, rfl, -⟩ := Binary.finite.inj h
      decide
  | finite s n f hn =>
      obtain ⟨-, rfl, -⟩ := Binary.finite.inj h
      exact hdouble.1

/-- Rounding what has a part below one gives no more places. -/
theorem halfAwayShift_lt {m : Nat} {e : Int} (hm : m < 2 ^ 53) (he : e < 0) :
    halfAwayShift m e < 2 ^ 53 := by
  obtain ⟨d, rfl⟩ := Int.eq_negSucc_of_lt_zero he
  have hpos : 0 < 2 ^ d := Nat.two_pow_pos d
  rw [halfAwayShift, Nat.shiftRight_eq_div_pow, Nat.one_shiftLeft, pow_succ,
    Nat.div_lt_iff_lt_mul (by omega)]
  omega

/-- A finite double is **rounded to a whole number** without any other loss. -/
theorem exists_floatValue_roundHalfAway {x : Float} (hx : x.isFinite = true) :
    ∃ n : ℤ, |n - floatValue x| ≤ 1 / 2 ∧ (roundHalfAway x).isFinite = true ∧
      floatValue (roundHalfAway x) = n := by
  rw [← isFinite_ofFloat] at hx
  cases hform : Binary.ofFloat x with
  | undefined => rw [hform] at hx; cases hx
  | infinite negative => rw [hform] at hx; cases hx
  | finite negative m e =>
      have hfinite : x.isFinite = true := by
        rw [← isFinite_ofFloat, hform]
        rfl
      have hvalue : floatValue x = (if negative then -1 else 1) * (m * 2 ^ e) := by
        rw [← value_ofFloat, hform, Binary.value]
      unfold roundHalfAway
      simp only [hform]
      split
      · next hwhole =>
          obtain ⟨d, rfl⟩ := Int.eq_ofNat_of_zero_le hwhole
          refine ⟨(if negative then -1 else 1) * (m * 2 ^ d), ?_, hfinite, ?_⟩
          · rw [hvalue]
            cases negative <;> simp
          · rw [hvalue]
            cases negative <;> simp
      · next hpart =>
          have hnear := abs_halfAwayShift_sub_le m e
          have hsmall := halfAwayShift_lt (mantissa_lt hform) (not_le.1 hpart)
          obtain ⟨hfin, hval⟩ := floatValue_ofNat hsmall
          cases negative with
          | false =>
              refine ⟨halfAwayShift m e, ?_, hfin, ?_⟩
              · rw [hvalue]
                simpa using hnear
              · simpa using hval
          | true =>
              obtain ⟨hfin', hval'⟩ := floatValue_neg hfin
              refine ⟨-halfAwayShift m e, ?_, hfin', ?_⟩
              · rw [hvalue]
                rw [abs_sub_comm] at hnear
                simpa [abs_sub_comm, sub_eq_add_neg, add_comm] using hnear
              · rw [if_pos rfl, hval', hval]
                push_cast
                rfl

/-! ### Widths -/

theorem floatValue_scale : (1e5 : Float).isFinite = true ∧ floatValue 1e5 = 100000 := by
  have hform : Binary.ofFloat 1e5 = .finite false 6871947673600000 (-36) := by decide +kernel
  obtain ⟨hfinite, hvalue⟩ := floatValue_of_ofFloat hform
  refine ⟨hfinite, ?_⟩
  rw [hvalue]
  norm_num

/-- Widths up to `2 ^ 35` in size. -/
theorem floatValue_bounded {w : Float} (hlow : -34359738368 ≤ w) (hhigh : w ≤ 34359738368) :
    w.isFinite = true ∧ |floatValue w| ≤ 2 ^ 35 := by
  have hform : Binary.ofFloat 34359738368 = .finite false (2 ^ 52) (-17) := by decide +kernel
  have hform' : Binary.ofFloat (-34359738368) = .finite true (2 ^ 52) (-17) := by decide +kernel
  obtain ⟨hfinite, hvalue⟩ := floatValue_of_ofFloat hform
  obtain ⟨hfinite', hvalue'⟩ := floatValue_of_ofFloat hform'
  have hw := isFinite_of_le_of_le hfinite' hfinite hlow hhigh
  have hle := floatValue_le_of_le hw hfinite hhigh
  have hle' := floatValue_le_of_le hfinite' hw hlow
  refine ⟨hw, abs_le.2 ⟨?_, ?_⟩⟩
  · rw [hvalue'] at hle'
    norm_num at hle' ⊢
    exact hle'
  · rw [hvalue] at hle
    norm_num at hle ⊢
    exact hle

theorem lt_two_pow_1023 {x : ℚ} (hx : x ≤ 2 ^ 52) : x < 2 ^ 1023 :=
  hx.trans_lt (pow_lt_pow_right₀ one_lt_two (by decide))

theorem exists_widthKey_eq {size : Float} (h : (size * 1e5).isFinite = true) :
    ∃ k : ℤ, |k - floatValue (size * 1e5)| ≤ 1 / 2 ∧
      widthKey size = max (-9223372036854775808) (min 9223372036854775807 k) := by
  rw [← isFinite_ofFloat] at h
  obtain ⟨k, hk, hnear⟩ := exists_nearest? h
  rw [value_ofFloat] at hnear
  refine ⟨k, hnear, ?_⟩
  unfold widthKey
  cases hform : Binary.ofFloat (size * 1e5) with
  | undefined => rw [hform] at h; cases h
  | infinite negative => rw [hform] at h; cases h
  | finite negative m e =>
      rw [hform] at hk
      simp only [hk, Option.getD_some]

/-- A product with `10 ^ 5` of up to `2 ^ 52` in size is off by a quarter at most. -/
theorem abs_mul_scale_sub_le {x : Float} (hx : x.isFinite = true)
    (hbound : |floatValue x * 100000| ≤ 2 ^ 52) :
    (x * 1e5).isFinite = true ∧ |floatValue (x * 1e5) - floatValue x * 100000| ≤ 1 / 4 := by
  obtain ⟨hscale, hscale'⟩ := floatValue_scale
  obtain ⟨hproduct, hnear⟩ := nearest_float_mul hx hscale (by
    rw [hscale']
    exact lt_two_pow_1023 hbound)
  rw [hscale'] at hnear
  have herr := hnear.abs_sub_le (k := -1) (by decide) (hbound.trans (by norm_num))
  exact ⟨hproduct, herr.trans (by norm_num)⟩

/-- The quotient of a whole number by `10 ^ 5`, of up to `2 ^ 35` in size, is off by less than a
quarter of a fifth place. -/
theorem abs_div_scale_sub_lt {t : Float} (ht : t.isFinite = true) {n : ℤ}
    (hvalue : floatValue t = n) (hn : |n| ≤ 2 ^ 35 * 100000) :
    (t / 1e5).isFinite = true ∧ |floatValue (t / 1e5) * 100000 - n| < 1 / 4 := by
  obtain ⟨hscale, hscale'⟩ := floatValue_scale
  have hbound : |(n / 100000 : ℚ)| ≤ 2 ^ 35 := by
    rw [abs_div, abs_of_pos (by norm_num : (0 : ℚ) < 100000), div_le_iff₀ (by norm_num)]
    exact_mod_cast hn
  obtain ⟨hquotient, hnear⟩ := nearest_float_div ht hscale (by rw [hscale']; norm_num) (by
    rw [hvalue, hscale']
    exact lt_two_pow_1023 (hbound.trans (by norm_num)))
  rw [hvalue, hscale'] at hnear
  have herr := hnear.abs_sub_le (k := -18) (by decide) (hbound.trans (by norm_num))
  refine ⟨hquotient, ?_⟩
  rw [abs_le] at herr
  norm_num at herr
  exact abs_lt.2 ⟨by linarith, by linarith⟩

/-- A width of up to `2 ^ 35` in size is rounded to a whole number of fifth places. -/
theorem exists_floatValue_fifthPlaces {w : Float} (hw : w.isFinite = true)
    (hsize : |floatValue w| ≤ 2 ^ 35) :
    ∃ n : ℤ, |n| ≤ 2 ^ 35 * 100000 ∧ (roundHalfAway (w * 1e5)).isFinite = true ∧
      floatValue (roundHalfAway (w * 1e5)) = n := by
  have hbound : |floatValue w * 100000| ≤ 2 ^ 35 * 100000 := by
    rw [abs_mul, abs_of_pos (by norm_num : (0 : ℚ) < 100000)]
    gcongr
  obtain ⟨hproduct, herr⟩ := abs_mul_scale_sub_le hw (hbound.trans (by norm_num))
  obtain ⟨n, hn, hfinite, hvalue⟩ := exists_floatValue_roundHalfAway hproduct
  refine ⟨n, ?_, hfinite, hvalue⟩
  -- the product is off by less than one, so the whole number is not beyond the bound
  have hlt : |(n : ℚ)| < 2 ^ 35 * 100000 + 1 := by
    rw [abs_le] at hbound herr hn
    exact abs_lt.2 ⟨by linarith, by linarith⟩
  have hlt' : |n| < 2 ^ 35 * 100000 + 1 := by exact_mod_cast hlt
  exact Int.le_of_lt_add_one hlt'

/-- A width within a quarter of a whole number of fifth places has this number as its key. -/
theorem widthKey_of_abs_sub_lt {size : Float} (hfinite : size.isFinite = true) {n : ℤ}
    (hn : |n| ≤ 2 ^ 35 * 100000) (hnear : |floatValue size * 100000 - n| < 1 / 4) :
    widthKey size = n := by
  have hn' : |(n : ℚ)| ≤ 2 ^ 35 * 100000 := by exact_mod_cast hn
  have hbound : |floatValue size * 100000| ≤ 2 ^ 52 := by
    rw [abs_lt] at hnear
    rw [abs_le] at hn' ⊢
    norm_num at hn' ⊢
    constructor <;> linarith
  obtain ⟨hproduct, herr⟩ := abs_mul_scale_sub_le hfinite hbound
  obtain ⟨k, hk, hkey⟩ := exists_widthKey_eq hproduct
  -- the product is within a half of the whole number, and so that is the nearest one
  have hsame : k = n := by
    refine eq_of_abs_sub_lt hk ?_
    rw [abs_le] at herr
    rw [abs_lt] at hnear ⊢
    constructor <;> linarith
  rw [hkey, hsame]
  rw [abs_le] at hn
  omega

theorem widthKey_of_zero {x : Float} {s : Float.Model.UnpackedFloat.Sign}
    (hx : x.toModel.unpack = .zero s) : widthKey x = 0 := by
  have hfinite : x.isFinite = true := by
    unfold Float.isFinite Float.Model.isFinite
    rw [hx]
    rfl
  have hvalue : floatValue x = 0 := by
    rw [floatValue, hx]
    rfl
  refine widthKey_of_abs_sub_lt hfinite (by norm_num) ?_
  rw [hvalue]
  norm_num

/-- Equal widths **have the same key**, however large they are. -/
theorem widthKey_eq_of_beq {x y : Float} (h : (x == y) = true) : widthKey x = widthKey y := by
  rcases unpack_eq_or_zero h with hsame | ⟨⟨s, hx⟩, ⟨t, hy⟩⟩
  · have hmodel : x * 1e5 = y * 1e5 := by
      change Float.ofModel (.pack (.mul .binary64 x.toModel.unpack (1e5 : Float).toModel.unpack)) =
        Float.ofModel (.pack (.mul .binary64 y.toModel.unpack (1e5 : Float).toModel.unpack))
      rw [hsame]
    rw [widthKey, hmodel, widthKey]
  · rw [widthKey_of_zero hx, widthKey_of_zero hy]

/-- A width of up to `2 ^ 35` is rounded to a whole number of fifth places, and **its key is this
number**. -/
theorem exists_widthKey {w : Float} (hlow : -34359738368 ≤ w) (hhigh : w ≤ 34359738368) :
    ∃ n : ℤ, (roundHalfAway (w * 1e5)).isFinite = true ∧
      floatValue (roundHalfAway (w * 1e5)) = n ∧ (roundWidth w).isFinite = true ∧
      |floatValue (roundWidth w) * 100000 - n| < 1 / 4 ∧ widthKey (roundWidth w) = n := by
  obtain ⟨hw, hsize⟩ := floatValue_bounded hlow hhigh
  obtain ⟨n, hn, hplaces, hvalue⟩ := exists_floatValue_fifthPlaces hw hsize
  obtain ⟨hfinite, hnear⟩ := abs_div_scale_sub_lt hplaces hvalue hn
  exact ⟨n, hplaces, hvalue, hfinite, hnear, widthKey_of_abs_sub_lt hfinite hn hnear⟩

/-- Up to `2 ^ 35` in size, two widths **have the same key exactly if they are rounded to the same
double**. -/
theorem widthKey_roundWidth_eq_iff {w w' : Float} (hlow : -34359738368 ≤ w)
    (hhigh : w ≤ 34359738368) (hlow' : -34359738368 ≤ w') (hhigh' : w' ≤ 34359738368) :
    widthKey (roundWidth w) = widthKey (roundWidth w') ↔
      (roundWidth w == roundWidth w') = true := by
  obtain ⟨n, ht, htval, hs, hback, hkey⟩ := exists_widthKey hlow hhigh
  obtain ⟨n', ht', htval', hs', hback', hkey'⟩ := exists_widthKey hlow' hhigh'
  rw [hkey, hkey', beq_iff_floatValue_eq hs hs']
  constructor
  · rintro rfl
    obtain ⟨hscale, hscale'⟩ := floatValue_scale
    exact floatValue_div_congr ht ht' hscale (by rw [hscale']; norm_num) (htval.trans htval'.symm)
  · intro hvalue
    rw [← hvalue] at hback'
    refine eq_of_abs_sub_lt ?_ (hback'.trans (by norm_num))
    rw [abs_sub_comm]
    exact hback.le.trans (by norm_num)

/-- A little beyond this size there are widths that are rounded to different doubles and have the
same key. -/
example : widthKey (roundWidth 35946412797.987656) = widthKey (roundWidth 35946412797.98766) ∧
    (roundWidth 35946412797.987656 == roundWidth 35946412797.98766) = false := by
  decide +kernel

end Artwork
