import Mathlib.Algebra.BigOperators.Group.List.Basic
import Mathlib.Tactic.Ring
import Artwork.Proofs.Scalar
import Artwork.Proofs.Graphics.Nesting

/-!
**What a sequence of matrices comes to.**

The graphics state does not multiply matrices.  It adds up the translations and multiplies up the
scales, apart from each other, and leaves out every matrix that does more than one of the two.  So the
order of the matrices does not matter to it, although it matters to their product.  An operand is moved
first and scaled then, as it is by the product if all scaling comes before all moving.

Main definitions:

* `Matrix.shift?`, `Matrix.factors?` — the translation of a matrix, or its scale;
* `Matrix.Mixed` — a matrix that **is left out**;
* `Matrix.image`, `composed` — the image of a point under a matrix, and under a sequence of them;
* `ScalesFirst` — no scale is given after a translation;
* `GraphicsState.Composition` — what the state is after matrices.

Main results:

* `Matrix.effect_cases` — the four kinds of matrices;
* `GraphicsState.mapPoint_apply_effect` — **one matrix** more, applied to the operand first;
* `composition_of_transforms` — offset, scale and the transform of a sequence.
-/

set_option relaxedAutoImplicit false
set_option autoImplicit false

namespace Artwork

/-- The sum of points. -/
def Point.sum {K : Type} [Scalar K] (ps : List (Point K)) : Point K :=
  ⟨(ps.map Point.x).sum, (ps.map Point.y).sum⟩

/-- The product of points along each axis. -/
def Point.product {K : Type} [Scalar K] (ps : List (Point K)) : Point K :=
  ⟨(ps.map Point.x).prod, (ps.map Point.y).prod⟩

/-- Two points multiplied along each axis. -/
def Point.times {K : Type} [Scalar K] (p q : Point K) : Point K :=
  ⟨p.x * q.x, p.y * q.y⟩

/-- Matrices as operators, each with the choice whether the state is saved before. -/
def transforms {K : Type} (lines : List (Bool × Matrix K)) : List (Operator K) :=
  lines.map fun line => .transform line.1 line.2

namespace Matrix

variable {K : Type} [Scalar K]

/-- The translation of a matrix that is followed as one. -/
def shift? (m : Matrix K) : Option (Point K) :=
  match m.effect with
  | .translated shift => some shift
  | _ => none

/-- The scale along each axis of a matrix that is followed as one. -/
def factors? (m : Matrix K) : Option (Point K) :=
  match m.effect with
  | .scaled factors => some factors
  | _ => none

/-- The image of a point under the affine map. -/
def image (m : Matrix K) (p : Point K) : Point K :=
  ⟨m.a * p.x + m.c * p.y + m.e, m.b * p.x + m.d * p.y + m.f⟩

/-- A matrix that **turns or skews, or scales and moves at once**. -/
def Mixed (m : Matrix K) : Prop :=
  m.b ≠ 0 ∨ m.c ≠ 0 ∨ (m.a ≠ 1 ∨ m.d ≠ 1) ∧ (m.e ≠ 0 ∨ m.f ≠ 0)

end Matrix

/-- The image of a point under a sequence of matrices, the last of which is applied first. -/
def composed {K : Type} [Scalar K] (ms : List (Matrix K)) (p : Point K) : Point K :=
  ms.foldr Matrix.image p

/-- No scale is given after a translation. -/
def ScalesFirst {K : Type} [Scalar K] (ms : List (Matrix K)) : Prop :=
  ms.Pairwise fun m later => m.shift?.isSome = true → later.factors? = none

section Exact

variable {K : Type} [Field K] [LinearOrder K]

/-! ### Sums and products of points -/

namespace Point

theorem add_sum_nil (p : Point K) : p + sum [] = p :=
  congrArg₂ Point.mk (add_zero p.x) (add_zero p.y)

theorem add_sum_cons (p q : Point K) (ps : List (Point K)) : p + sum (q :: ps) = p + q + sum ps :=
  congrArg₂ Point.mk (add_assoc ..).symm (add_assoc ..).symm

theorem times_product_nil (p : Point K) : p.times (product []) = p :=
  congrArg₂ Point.mk (mul_one p.x) (mul_one p.y)

theorem times_product_cons (p q : Point K) (ps : List (Point K)) :
    p.times (product (q :: ps)) = (p.times q).times (product ps) :=
  congrArg₂ Point.mk (mul_assoc ..).symm (mul_assoc ..).symm

theorem sum_perm {ps qs : List (Point K)} (h : ps.Perm qs) : sum ps = sum qs :=
  congrArg₂ Point.mk (h.map Point.x).sum_eq (h.map Point.y).sum_eq

theorem product_perm {ps qs : List (Point K)} (h : ps.Perm qs) : product ps = product qs :=
  congrArg₂ Point.mk (h.map Point.x).prod_eq (h.map Point.y).prod_eq

end Point

/-! ### One matrix -/

namespace Matrix

instance (m : Matrix K) : Decidable m.Mixed :=
  inferInstanceAs (Decidable (_ ∨ _ ∨ (_ ∨ _) ∧ (_ ∨ _)))

theorem mixes_eq_false_iff {m : Matrix K} : m.mixes = false ↔ m.b = 0 ∧ m.c = 0 := by
  simp [mixes]

theorem moves_eq_false_iff {m : Matrix K} : m.moves = false ↔ m.e = 0 ∧ m.f = 0 := by
  simp [moves]

theorem rescales_eq_false_iff {m : Matrix K} : m.rescales = false ↔ m.a = 1 ∧ m.d = 1 := by
  simp [rescales]

/-- A matrix is a translation, a scale, the identity, or **mixed**. -/
theorem effect_cases (m : Matrix K) :
    (∃ shift, m.effect = .translated shift ∧ m = ⟨1, 0, 0, 1, shift.x, shift.y⟩) ∨
      (∃ factors, m.effect = .scaled factors ∧ m = ⟨factors.x, 0, 0, factors.y, 0, 0⟩) ∨
      (m.effect = .identity ∧ m = ⟨1, 0, 0, 1, 0, 0⟩) ∨ (m.effect = .unsupported ∧ m.Mixed) := by
  obtain ⟨a, b, c, d, e, f⟩ := m
  unfold effect
  cases hmixes : mixes ⟨a, b, c, d, e, f⟩ with
  | true =>
      refine Or.inr (Or.inr (Or.inr ⟨rfl, ?_⟩))
      simp only [mixes, Bool.or_eq_true, bne_iff_ne] at hmixes
      exact hmixes.elim Or.inl fun hc => Or.inr (Or.inl hc)
  | false =>
      obtain ⟨rfl, rfl⟩ := mixes_eq_false_iff.1 hmixes
      rw [if_neg (by decide)]
      cases hmoves : moves ⟨a, 0, 0, d, e, f⟩ <;> cases hrescales : rescales ⟨a, 0, 0, d, e, f⟩
      · obtain ⟨rfl, rfl⟩ := moves_eq_false_iff.1 hmoves
        obtain ⟨rfl, rfl⟩ := rescales_eq_false_iff.1 hrescales
        exact Or.inr (Or.inr (Or.inl ⟨rfl, rfl⟩))
      · obtain ⟨rfl, rfl⟩ := moves_eq_false_iff.1 hmoves
        exact Or.inr (Or.inl ⟨⟨a, d⟩, rfl, rfl⟩)
      · obtain ⟨rfl, rfl⟩ := rescales_eq_false_iff.1 hrescales
        exact Or.inl ⟨⟨e, f⟩, rfl, rfl⟩
      · refine Or.inr (Or.inr (Or.inr ⟨rfl, Or.inr (Or.inr ?_)⟩))
        simpa [moves, rescales, and_comm] using And.intro hmoves hrescales

theorem effect_eq_unsupported_iff {m : Matrix K} : m.effect = .unsupported ↔ m.Mixed := by
  rcases m.effect_cases with ⟨shift, heffect, rfl⟩ | ⟨factors, heffect, rfl⟩ | ⟨heffect, rfl⟩ |
    ⟨heffect, hmixed⟩
  · simp [heffect, Mixed]
  · simp [heffect, Mixed]
  · simp [heffect, Mixed]
  · simp [heffect, hmixed]

end Matrix

/-! ### One more matrix -/

namespace GraphicsState

variable (s : GraphicsState K) (factor : K)

/-- The state after a sequence of matrices. -/
def applyAll (ms : List (Matrix K)) : GraphicsState K :=
  ms.foldl (fun s m => s.apply m.effect) s

theorem applyAll_cons (m : Matrix K) (ms : List (Matrix K)) :
    s.applyAll (m :: ms) = (s.apply m.effect).applyAll ms := rfl

/-- The offset grows by all translations, the scale by all scales, and nothing else changes. -/
theorem applyAll_eq (ms : List (Matrix K)) :
    s.applyAll ms =
      ⟨s.offset + Point.sum (ms.filterMap Matrix.shift?),
        s.scale.times (Point.product (ms.filterMap Matrix.factors?)), s.lineWidth⟩ := by
  induction ms generalizing s with
  | nil =>
      rw [List.filterMap_nil, List.filterMap_nil, Point.add_sum_nil, Point.times_product_nil]
      rfl
  | cons m ms ih =>
      rw [applyAll_cons, ih]
      cases heffect : m.effect with
      | translated shift =>
          have hshift : m.shift? = some shift := by rw [Matrix.shift?, heffect]
          have hfactors : m.factors? = none := by rw [Matrix.factors?, heffect]
          rw [List.filterMap_cons_some hshift, List.filterMap_cons_none hfactors,
            Point.add_sum_cons]
          rfl
      | scaled factors =>
          have hshift : m.shift? = none := by rw [Matrix.shift?, heffect]
          have hfactors : m.factors? = some factors := by rw [Matrix.factors?, heffect]
          rw [List.filterMap_cons_none hshift, List.filterMap_cons_some hfactors,
            Point.times_product_cons]
          rfl
      | identity | unsupported =>
          have hshift : m.shift? = none := by rw [Matrix.shift?, heffect]
          have hfactors : m.factors? = none := by rw [Matrix.factors?, heffect]
          rw [List.filterMap_cons_none hshift, List.filterMap_cons_none hfactors]
          rfl

/-- From the start of a page, offset and scale are the sum and the product. -/
theorem applyAll_initial (ms : List (Matrix K)) :
    (initial factor).applyAll ms =
      ⟨Point.sum (ms.filterMap Matrix.shift?), Point.product (ms.filterMap Matrix.factors?),
        factor⟩ := by
  have hoffset : ∀ p : Point K, ⟨0, 0⟩ + p = p :=
    fun p => congrArg₂ Point.mk (zero_add p.x) (zero_add p.y)
  have hscale : ∀ p : Point K, Point.times ⟨1, 1⟩ p = p :=
    fun p => congrArg₂ Point.mk (one_mul p.x) (one_mul p.y)
  rw [applyAll_eq, initial, hoffset, hscale]

/-- A matrix that is no translation leaves the offset alone. -/
theorem offset_apply_effect {m : Matrix K} (h : m.shift? = none) :
    (s.apply m.effect).offset = s.offset := by
  unfold Matrix.shift? at h
  cases heffect : m.effect with
  | translated shift =>
      rw [heffect] at h
      cases h
  | scaled factors => rfl
  | identity | unsupported => rfl

/-- **One matrix more** is applied to the operand first.  A scale is applied to the offset as well,
so that there must not be one yet. -/
theorem mapPoint_apply_effect {m : Matrix K} (hm : ¬ m.Mixed)
    (hs : m.factors?.isSome = true → s.offset = ⟨0, 0⟩) (p : Point K) :
    (s.apply m.effect).mapPoint factor p = s.mapPoint factor (m.image p) := by
  unfold Matrix.factors? at hs
  rcases m.effect_cases with ⟨shift, heffect, rfl⟩ | ⟨factors, heffect, rfl⟩ | ⟨heffect, rfl⟩ |
    ⟨-, hmixed⟩
  · rw [heffect]
    simp only [apply, translate, mapPoint, Matrix.image, Point.mk.injEq, Point.add_x, Point.add_y]
    constructor <;> ring
  · rw [heffect] at hs ⊢
    simp only [apply, scaleBy, mapPoint, Matrix.image, Point.mk.injEq, hs rfl]
    constructor <;> ring
  · rw [heffect]
    simp only [apply, mapPoint, Matrix.image, Point.mk.injEq]
    constructor <;> ring
  · exact absurd hmixed hm

/-- Where all scales come first, and none of them after an offset, an operand is mapped by the
composition of the matrices that are not mixed, and then by the state before them. -/
theorem mapPoint_applyAll {ms : List (Matrix K)} (hms : ScalesFirst ms)
    (hs : ∀ m ∈ ms, m.factors?.isSome = true → s.offset = ⟨0, 0⟩) (p : Point K) :
    (s.applyAll ms).mapPoint factor p =
      s.mapPoint factor (composed (ms.filter fun m => ¬ m.Mixed) p) := by
  induction ms generalizing s with
  | nil => rfl
  | cons m ms ih =>
      obtain ⟨hlater, hms⟩ := List.pairwise_cons.1 hms
      -- as long as a scale follows, this matrix is no translation
      have hoffset : ∀ m' ∈ ms, m'.factors?.isSome = true →
          (s.apply m.effect).offset = ⟨0, 0⟩ := by
        intro m' hm' hscale
        have hshift : m.shift? = none := by
          by_contra hsome
          rw [hlater m' hm' (Option.isSome_iff_ne_none.2 hsome)] at hscale
          cases hscale
        rw [s.offset_apply_effect hshift, hs m' (List.mem_cons_of_mem m hm') hscale]
      rw [applyAll_cons, ih _ hms hoffset]
      by_cases hm : m.Mixed
      · rw [List.filter_cons_of_neg (by simpa using hm), Matrix.effect_eq_unsupported_iff.2 hm]
        rfl
      · rw [List.filter_cons_of_pos (by simpa using hm),
          s.mapPoint_apply_effect factor hm (hs m (List.mem_cons_self ..))]
        rfl

/-- Without the mixed matrices the state after a sequence is the same. -/
theorem applyAll_filter (ms : List (Matrix K)) :
    s.applyAll (ms.filter fun m => ¬ m.Mixed) = s.applyAll ms := by
  induction ms generalizing s with
  | nil => rfl
  | cons m ms ih =>
      by_cases hm : m.Mixed
      · rw [List.filter_cons_of_neg (by simpa using hm), ih, applyAll_cons,
          Matrix.effect_eq_unsupported_iff.2 hm]
        rfl
      · rw [List.filter_cons_of_pos (by simpa using hm), applyAll_cons, applyAll_cons, ih]

/-- Points of the page at its start are only brought into the unit of the output. -/
theorem mapPoint_initial (p : Point K) : (initial factor).mapPoint factor p = p * factor := by
  unfold initial mapPoint
  rw [add_zero, add_zero, mul_one, mul_one]
  rfl

end GraphicsState

/-! ### Sequences of matrices -/

namespace StateStack

variable (factor : K)

/-- The state after matrices alone, from the start of a page. -/
def transformed (lines : List (Bool × Matrix K)) : GraphicsState K :=
  ((initial factor).followAll factor (transforms lines)).current

/-- Whether a state is saved before a matrix makes no difference to the state after it. -/
theorem current_followAll_transforms (s : StateStack K) (lines : List (Bool × Matrix K)) :
    (s.followAll factor (transforms lines)).current =
      s.current.applyAll (lines.map Prod.snd) := by
  induction lines generalizing s with
  | nil => rfl
  | cons line lines ih =>
      obtain ⟨saving, m⟩ := line
      have hfollow : (s.follow factor (.transform saving m)).current = s.current.apply m.effect := by
        cases saving <;> rfl
      rw [List.map_cons, GraphicsState.applyAll_cons, ← hfollow]
      exact ih _

end StateStack

/-- What matrices come to. -/
structure GraphicsState.Composition (factor : K) (ms : List (Matrix K)) (s : GraphicsState K) :
    Prop where
  /-- The offset is the sum of the translations, -/
  offset_eq : s.offset = Point.sum (ms.filterMap Matrix.shift?)
  /-- the scale is the product of the scales, -/
  scale_eq : s.scale = Point.product (ms.filterMap Matrix.factors?)
  /-- and the line width is as it was. -/
  lineWidth_eq : s.lineWidth = factor
  /-- If all scales come first, a point is mapped by the matrices that are not mixed, the last
  one first, and then brought into the unit of the output. -/
  mapPoint_eq : ScalesFirst ms →
    ∀ p, s.mapPoint factor p = composed (ms.filter fun m => ¬ m.Mixed) p * factor

/-- **Sequences of matrices.**  What they come to is the same in any order, and without those that
are mixed. -/
theorem composition_of_transforms (factor : K) (lines : List (Bool × Matrix K)) :
    GraphicsState.Composition factor (lines.map Prod.snd) (StateStack.transformed factor lines) ∧
      (∀ reordered : List (Bool × Matrix K), reordered.Perm lines →
        StateStack.transformed factor reordered = StateStack.transformed factor lines) ∧
      StateStack.transformed factor (lines.filter fun line => ¬ line.2.Mixed) =
        StateStack.transformed factor lines := by
  have happly : ∀ lines : List (Bool × Matrix K), StateStack.transformed factor lines =
      (GraphicsState.initial factor).applyAll (lines.map Prod.snd) :=
    fun lines => StateStack.current_followAll_transforms factor _ lines
  refine ⟨?_, fun reordered hperm => ?_, ?_⟩
  · rw [happly]
    refine ⟨?_, ?_, ?_, fun hfirst p => ?_⟩
    · rw [GraphicsState.applyAll_initial]
    · rw [GraphicsState.applyAll_initial]
    · rw [GraphicsState.applyAll_initial]
    · rw [GraphicsState.mapPoint_applyAll _ _ hfirst fun _ _ _ => rfl,
        GraphicsState.mapPoint_initial]
  · have hms := hperm.map Prod.snd
    rw [happly, happly, GraphicsState.applyAll_initial, GraphicsState.applyAll_initial,
      Point.sum_perm (hms.filterMap _), Point.product_perm (hms.filterMap _)]
  · have hfilter : (lines.filter fun line => ¬ line.2.Mixed).map Prod.snd =
        (lines.map Prod.snd).filter fun m => ¬ m.Mixed := by
      rw [List.filter_map]
      rfl
    rw [happly, happly, hfilter, GraphicsState.applyAll_filter]

end Exact

/-- A page that is scaled, turned, and moved twice, the second time after saving the state. -/
def scaledPage : List (Bool × Matrix ℚ) :=
  [(false, ⟨2, 0, 0, -3, 0, 0⟩), (true, ⟨0, 1, -1, 0, 0, 0⟩), (false, ⟨1, 0, 0, 1, 5, -7⟩),
    (true, ⟨1, 0, 0, 1, 0, 4⟩)]

/-- The turn has no part in it, and the others are composed. -/
theorem composition_of_transforms_scaledPage :
    ScalesFirst (scaledPage.map Prod.snd) ∧
      StateStack.transformed (127 / 360) scaledPage = ⟨⟨5, -3⟩, ⟨2, -3⟩, 127 / 360⟩ ∧
      ∀ p, (StateStack.transformed (127 / 360) scaledPage).mapPoint (127 / 360) p =
        composed [⟨2, 0, 0, -3, 0, 0⟩, ⟨1, 0, 0, 1, 5, -7⟩, ⟨1, 0, 0, 1, 0, 4⟩] p * (127 / 360 : ℚ) := by
  have hfirst : ScalesFirst (scaledPage.map Prod.snd) := by
    unfold ScalesFirst
    decide +kernel
  have hmatrices : ((scaledPage.map Prod.snd).filter fun m => ¬ m.Mixed) =
      [⟨2, 0, 0, -3, 0, 0⟩, ⟨1, 0, 0, 1, 5, -7⟩, ⟨1, 0, 0, 1, 0, 4⟩] := by
    decide +kernel
  refine ⟨hfirst, by decide +kernel, fun p => ?_⟩
  rw [← hmatrices]
  exact (composition_of_transforms (127 / 360) scaledPage).1.mapPoint_eq hfirst p

/-- A scale after a translation is applied to the translation too, unlike their product. -/
example :
    let moved : List (Matrix ℚ) := [⟨1, 0, 0, 1, 10, 0⟩, ⟨2, 0, 0, 2, 0, 0⟩]
    ((GraphicsState.initial 1).applyAll moved).mapPoint 1 ⟨3, 0⟩ = ⟨26, 0⟩ ∧
      composed moved ⟨3, 0⟩ = ⟨16, 0⟩ := by
  decide +kernel

end Artwork
