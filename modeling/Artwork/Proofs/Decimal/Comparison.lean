import Artwork.Decimal.Numeral
import Artwork.Paint

/-!
**When doubles are equal.**

The comparison of doubles is not equality: an undefined double differs from itself, and the two
zeros do not differ.  It is an equivalence on the doubles that are defined, and what a numeral
writes is always defined.  So colours that are read from a text can be compared like ordinary
values.

Main definitions:

* `number?` — **what the comparison looks at**: nothing in an undefined double, no sign in a zero.

Main results:

* `float_beq_iff` — the comparison is equality of `number?`;
* `beq_self_of_isNaN` — a double that is defined is equal to itself;
* `floatPartialEquiv`, `colorPartialEquiv` — it is symmetric and transitive, also on colours;
* `Numeral.beq_self_of_value?` — **the value of a numeral is equal to itself**.
-/

set_option relaxedAutoImplicit false
set_option autoImplicit false

namespace Artwork

open Float.Model (Format UnpackedFloat)
open Float.Model.UnpackedFloat (Sign Accuracy packComponents)

/-! ### The comparison -/

/-- A number without the sign of a zero, if it is defined. -/
def comparable? : UnpackedFloat → Option UnpackedFloat
  | .notANumber => none
  | .zero _ => some (.zero .positive)
  | x => some x

theorem then_eq_iff (e f : Int) (m n : Nat) :
    (compare e f).then (compare m n) = .eq ↔ e = f ∧ m = n := by
  rw [Ordering.then_eq_eq, Std.compare_eq_iff_eq, Std.compare_eq_iff_eq]

/-- Two finite numbers of one sign compare as equal exactly if exponent and mantissa are equal. -/
theorem finite_beq_iff (s : Sign) {m n : Nat} {e f : Int} (hm : 0 < m) (hn : 0 < n) :
    (UnpackedFloat.finite s m e hm).beq (.finite s n f hn) = true ↔ e = f ∧ m = n := by
  cases s with
  | positive =>
      have hbeq : (UnpackedFloat.finite .positive m e hm).beq (.finite .positive n f hn) =
        (some ((compare e f).then (compare m n)) == some .eq) := rfl
      rw [hbeq, beq_iff_eq, Option.some.injEq, then_eq_iff]
  | negative =>
      have hbeq : (UnpackedFloat.finite .negative m e hm).beq (.finite .negative n f hn) =
        (some ((compare e f).then (compare m n)).swap == some .eq) := rfl
      rw [hbeq, beq_iff_eq, Option.some.injEq, Ordering.swap_eq_eq, then_eq_iff]

theorem unpacked_beq_iff (x y : UnpackedFloat) :
    x.beq y = true ↔ comparable? x = comparable? y ∧ comparable? x ≠ none := by
  -- numbers of different kinds or signs are never equal
  have hdiffer : ∀ {x y : UnpackedFloat}, x.beq y = false → comparable? x ≠ comparable? y →
      (x.beq y = true ↔ comparable? x = comparable? y ∧ comparable? x ≠ none) := by
    intro x y hbeq hne
    rw [hbeq]
    exact iff_of_false nofun fun h => hne h.1
  cases x with
  | notANumber => exact iff_of_false (by cases y <;> nofun) fun h => h.2 rfl
  | infinity s =>
      cases y with
      | infinity t =>
          by_cases hst : s = t
          · rw [hst]
            exact iff_of_true (by cases t <;> rfl) ⟨rfl, nofun⟩
          · refine hdiffer ?_ fun h => hst ?_
            · cases s <;> cases t <;> first | rfl | exact absurd rfl hst
            · injection Option.some.inj h
      | notANumber => exact hdiffer (by cases s <;> rfl) nofun
      | zero t => exact hdiffer (by cases s <;> rfl) nofun
      | finite t n f hn => exact hdiffer (by cases s <;> rfl) nofun
  | zero s =>
      cases y with
      | infinity t => exact hdiffer (by cases t <;> rfl) nofun
      | notANumber => exact hdiffer rfl nofun
      | zero t => exact iff_of_true rfl ⟨rfl, nofun⟩
      | finite t n f hn => exact hdiffer (by cases t <;> rfl) nofun
  | finite s m e hm =>
      cases y with
      | infinity t => exact hdiffer (by cases s <;> cases t <;> rfl) nofun
      | notANumber => exact hdiffer (by cases s <;> rfl) nofun
      | zero t => exact hdiffer (by cases s <;> rfl) nofun
      | finite t n f hn =>
          by_cases hst : s = t
          · rw [← hst, finite_beq_iff]
            constructor
            · rintro ⟨rfl, rfl⟩
              exact ⟨rfl, nofun⟩
            · rintro ⟨h, -⟩
              injection Option.some.inj h with _ hmantissa hexponent
              exact ⟨hexponent, hmantissa⟩
          · refine hdiffer ?_ fun h => hst ?_
            · cases s <;> cases t <;> first | rfl | exact absurd rfl hst
            · injection Option.some.inj h
/-- What the comparison of doubles **looks at**: nothing in an undefined one, no sign in a zero. -/
def number? (x : Float) : Option UnpackedFloat :=
  comparable? x.toModel.unpack

theorem float_beq_iff (x y : Float) :
    (x == y) = true ↔ number? x = number? y ∧ number? x ≠ none :=
  unpacked_beq_iff x.toModel.unpack y.toModel.unpack

theorem float_beq_self_iff (x : Float) : (x == x) = true ↔ number? x ≠ none := by
  rw [float_beq_iff, and_iff_right rfl]

/-- A double that is **defined** is equal to itself. -/
theorem beq_self_of_isNaN {x : Float} (h : x.isNaN = false) : (x == x) = true := by
  have hunpack : x.toModel.unpack.isNaN = false := h
  rw [float_beq_self_iff, number?]
  cases hu : x.toModel.unpack with
  | notANumber =>
      rw [hu] at hunpack
      cases hunpack
  | _ => nofun

/-- The comparison of doubles is **symmetric and transitive**. -/
instance floatPartialEquiv : PartialEquivBEq Float where
  symm h := by
    obtain ⟨heq, hne⟩ := (float_beq_iff ..).1 h
    exact (float_beq_iff ..).2 ⟨heq.symm, heq ▸ hne⟩
  trans h h' := by
    obtain ⟨heq, hne⟩ := (float_beq_iff ..).1 h
    obtain ⟨heq', -⟩ := (float_beq_iff ..).1 h'
    exact (float_beq_iff ..).2 ⟨heq.trans heq', hne⟩

theorem color_beq_iff (c d : Color Float) :
    (c == d) = true ↔
      (c.red == d.red) = true ∧ (c.green == d.green) = true ∧ (c.blue == d.blue) = true := by
  have heq : (c == d) = (c.red == d.red && (c.green == d.green && c.blue == d.blue)) := rfl
  rw [heq, Bool.and_eq_true, Bool.and_eq_true]

/-- So is the comparison of colours. -/
instance colorPartialEquiv : PartialEquivBEq (Color Float) where
  symm h := by
    obtain ⟨hr, hg, hb⟩ := (color_beq_iff ..).1 h
    exact (color_beq_iff ..).2 ⟨BEq.symm hr, BEq.symm hg, BEq.symm hb⟩
  trans h h' := by
    obtain ⟨hr, hg, hb⟩ := (color_beq_iff ..).1 h
    obtain ⟨hr', hg', hb'⟩ := (color_beq_iff ..).1 h'
    exact (color_beq_iff ..).2 ⟨BEq.trans hr hr', BEq.trans hg hg', BEq.trans hb hb'⟩

/-! ### Numerals are defined -/

theorem isNaN_ite {c : Prop} [Decidable c] {x y : UnpackedFloat} (hx : x.isNaN = false)
    (hy : y.isNaN = false) : (if c then x else y).isNaN = false := by
  by_cases h : c
  · rwa [if_pos h]
  · rwa [if_neg h]

theorem isNaN_dite {c : Prop} [Decidable c] {x : c → UnpackedFloat} {y : ¬ c → UnpackedFloat}
    (hx : ∀ h, (x h).isNaN = false) (hy : ∀ h, (y h).isNaN = false) :
    (dite c x y).isNaN = false := by
  by_cases h : c
  · rw [dif_pos h]
    exact hx h
  · rw [dif_neg h]
    exact hy h

/-- Bits are read as a number unless they have the greatest exponent and a mantissa. -/
theorem isNaN_unpack_of_bits {S : Format} {bits : BitVec S.numBits}
    (h : UnpackedFloat.unpackExponent bits ≠ -1#_ ∨ UnpackedFloat.unpackMantissa bits = 0#_) :
    (UnpackedFloat.unpack S bits).isNaN = false := by
  unfold Float.Model.UnpackedFloat.unpack
  dsimp only
  by_cases he : UnpackedFloat.unpackExponent bits = -1#_
  · rw [if_pos he, if_pos (h.resolve_left (not_not_intro he))]
    rfl
  · rw [if_neg he]
    exact isNaN_ite (isNaN_dite (fun _ => rfl) fun _ => rfl) rfl

theorem isNaN_unpack_packComponents {S : Format} (s : Sign) {e : BitVec S.exponentBits}
    {m : BitVec S.mantissaBitsWithoutImplicit} (h : e ≠ -1#_ ∨ m = 0#_) :
    (UnpackedFloat.unpack S (packComponents S s e m)).isNaN = false := by
  refine isNaN_unpack_of_bits ?_
  rw [Float.Model.UnpackedFloat.unpackMantissa_packComponents,
    Float.Model.UnpackedFloat.unpackExponent_packComponents]
  exact h

/-- A number that is packed into bits is still a number. -/
theorem isNaN_unpack_pack (S : Format) {x : UnpackedFloat} (hx : x.isNaN = false) :
    (UnpackedFloat.unpack S (UnpackedFloat.pack S x)).isNaN = false := by
  have hzero : (0#S.exponentBits) ≠ -1#_ := by
    intro h
    have hnat := congrArg BitVec.toNat h
    have hpow : 2 ^ 1 ≤ 2 ^ S.exponentBits := Nat.pow_le_pow_right (by omega) S.he
    simp only [BitVec.neg_one_eq_allOnes, BitVec.toNat_allOnes, BitVec.toNat_zero] at hnat
    omega
  cases x with
  | notANumber => cases hx
  | infinity s => exact isNaN_unpack_packComponents s (Or.inr rfl)
  | zero s => exact isNaN_unpack_packComponents s (Or.inl hzero)
  | finite s m e hm =>
      unfold Float.Model.UnpackedFloat.pack
      dsimp only
      split
      · exact isNaN_unpack_packComponents s (Or.inr rfl)
      · next hfits =>
          split
          · refine isNaN_unpack_packComponents s (Or.inl fun h => ?_)
            have hnat := congrArg BitVec.toNat h
            simp only [BitVec.neg_one_eq_allOnes, BitVec.toNat_allOnes, BitVec.toNat_ofNat] at hnat
            rw [Nat.mod_eq_of_lt (by omega)] at hnat
            omega
          · exact isNaN_unpack_packComponents s (Or.inl hzero)

theorem isNaN_roundWithAccuracy (S : Format) (s : Sign) (m : Nat) (e : Int) (a : Accuracy) :
    (UnpackedFloat.roundWithAccuracy S s m e a).isNaN = false := by
  unfold Float.Model.UnpackedFloat.roundWithAccuracy
  exact isNaN_dite (fun _ => rfl) fun _ => rfl

/-- A quotient is a number if the dividend is one and the divisor is finite and not zero. -/
theorem isNaN_div_finite (S : Format) {x : UnpackedFloat} (hx : x.isNaN = false) (s : Sign)
    (m : Nat) (e : Int) (hm : 0 < m) : (UnpackedFloat.div S x (.finite s m e hm)).isNaN = false := by
  cases x with
  | notANumber => cases hx
  | infinity t => rfl
  | zero t => rfl
  | finite t n f hn => exact isNaN_roundWithAccuracy ..

theorem isNaN_ofScientific (S : Format) (m : Nat) (e : Int) :
    (UnpackedFloat.ofScientific S m e).isNaN = false := by
  unfold Float.Model.UnpackedFloat.ofScientific
  refine isNaN_dite (fun _ => rfl) fun hm => isNaN_ite rfl (isNaN_ite rfl (isNaN_ite ?_ ?_))
  · exact isNaN_roundWithAccuracy ..
  · exact isNaN_div_finite S rfl ..

theorem isNaN_ofUInt64 (S : Format) (n : UInt64) : (UnpackedFloat.ofUInt64 S n).isNaN = false := by
  unfold Float.Model.UnpackedFloat.ofUInt64 Float.Model.UnpackedFloat.ofNat
    Float.Model.UnpackedFloat.ofInt Float.Model.UnpackedFloat.normalize
  split
  · exact isNaN_roundWithAccuracy ..
  · rfl
  · exact isNaN_roundWithAccuracy ..

/-- The double is finite, and it is not zero. -/
def isNonzero (x : Float) : Bool :=
  match x.toModel.unpack with
  | .finite .. => true
  | _ => false

theorem isNonzero_powerOfTen :
    ∀ e : Fin Float.exactlyRepresentablePowersOfTen.size,
      isNonzero Float.exactlyRepresentablePowersOfTen[e] = true := by
  decide +kernel

theorem isNaN_div_of_isNonzero {x y : Float} (hx : x.toModel.unpack.isNaN = false)
    (hy : isNonzero y = true) : (x / y).toModel.unpack.isNaN = false := by
  refine isNaN_unpack_pack _ ?_
  unfold isNonzero at hy
  split at hy
  · next s m e hm heq =>
      rw [heq]
      exact isNaN_div_finite _ hx ..
  · cases hy

/-- The double nearest to a decimal is a number. -/
theorem isNaN_toModel_ofScientific (m e : Nat) :
    (Float.ofScientific m true e).toModel.unpack.isNaN = false := by
  unfold Float.ofScientific
  split
  · next hsmall =>
      rw [if_pos rfl]
      exact isNaN_div_of_isNonzero (isNaN_unpack_pack _ (isNaN_ofUInt64 ..))
        (isNonzero_powerOfTen ⟨e, by simp [Float.exactlyRepresentablePowersOfTen]; omega⟩)
  · exact isNaN_unpack_pack _ (isNaN_ofScientific ..)

theorem isNaN_toModel_neg {x : Float} (hx : x.toModel.unpack.isNaN = false) :
    (-x).toModel.unpack.isNaN = false := by
  refine isNaN_unpack_pack _ ?_
  cases hu : x.toModel.unpack with
  | notANumber =>
      rw [hu] at hx
      cases hx
  | _ => rfl

/-- **The value of a numeral** is equal to itself. -/
theorem Numeral.beq_self_of_value? {n : Numeral} {x : Float} (h : n.value? = some x) :
    (x == x) = true := by
  unfold Numeral.value? at h
  rw [Option.map_eq_some_iff] at h
  obtain ⟨digits, -, rfl⟩ := h
  refine beq_self_of_isNaN ?_
  have hdecimal := isNaN_toModel_ofScientific digits n.fraction.length
  dsimp only
  split
  · exact isNaN_toModel_neg hdecimal
  · exact hdecimal

end Artwork
