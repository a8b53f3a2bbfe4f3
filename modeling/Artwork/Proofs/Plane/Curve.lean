import Mathlib.Tactic.Linarith
import Mathlib.Tactic.Ring
import Artwork.Proofs.Plane.Box
import Artwork.Proofs.Path.Continuity

/-!
**The polyline of a chain of curves.**

A point of a curve is found by dividing: the control points are replaced by the points that divide the
ways between neighbours at the parameter, until one point is left.  Every point that is found in this
way lies between those it was found from, and so in every box that holds the control points.  Run
through from its stop point to its start, a curve has the same points at the opposite parameters, which
are those of the other samples.

Main definitions:

* `Point.between`, `divided`, `deCasteljau?` — a point of a curve **by repeated division**;
* `Segment.controls`, `Segment.reversed` — the control points, and the curve run through backwards;
* `Segment.Flattening` — what the polyline of a chain is.

Main results:

* `Segment.deCasteljau?_controls` — the weighted control points are the divided ones;
* `Box.Holds.deCasteljau?` — a curve is in the box of its control points;
* `Segment.polyline_reversed` — the polyline of a chain run through backwards;
* `Segment.polyline_flattening` — **the polyline of every chain**.
-/

set_option relaxedAutoImplicit false
set_option autoImplicit false

namespace Artwork

section Division

variable {K : Type} [Scalar K]

/-- The point that divides the way from `p` to `q` **in the proportion** of `t` to `1 - t`. -/
def Point.between (t : K) (p q : Point K) : Point K :=
  p * (1 - t) + q * t

/-- The points that divide the ways between neighbours in this proportion. -/
def divided (t : K) (ps : List (Point K)) : List (Point K) :=
  (ps.zip ps.tail).map fun (p, q) => Point.between t p q

/-- The point that is left when points are divided **again and again**. -/
def deCasteljau? (t : K) : List (Point K) → Option (Point K)
  | [] => none
  | [p] => some p
  | p :: q :: ps => deCasteljau? t (divided t (p :: q :: ps))
  termination_by ps => ps.length
  decreasing_by simp [divided]

namespace Segment

omit [Scalar K]

/-- The control points, from the start to the stop point. -/
def controls (s : Segment K) : List (Point K) :=
  [s.start, s.control₁, s.control₂, s.stop]

/-- The curve run through backwards. -/
def reversed (s : Segment K) : Segment K :=
  ⟨s.stop, s.control₂, s.control₁, s.start⟩

end Segment

end Division

variable {K : Type} [Field K] [LinearOrder K]

/-! ### One curve -/

namespace Segment

/-- The weighted sum of the four control points is the point **that repeated division leaves** of
them. -/
theorem deCasteljau?_controls (s : Segment K) (t : K) :
    deCasteljau? t s.controls = some (s.eval t) := by
  simp only [deCasteljau?, divided, controls, List.tail_cons, List.zip_cons_cons,
    List.zip_nil_right, List.map_cons, List.map_nil, Option.some.injEq]
  simp only [Point.between, eval]
  rw [Point.mk.injEq]
  simp only [Point.add_x, Point.add_y, Point.mul_x, Point.mul_y]
  constructor <;> ring

theorem eval_zero (s : Segment K) : s.eval 0 = s.start := by
  unfold eval
  refine congrArg₂ Point.mk ?_ ?_ <;> simp

theorem eval_one (s : Segment K) : s.eval 1 = s.stop := by
  unfold eval
  refine congrArg₂ Point.mk ?_ ?_ <;> simp

/-- Run through backwards, a curve has the same points at the opposite parameters. -/
theorem eval_reversed (s : Segment K) (t : K) : s.reversed.eval t = s.eval (1 - t) := by
  unfold eval reversed
  refine congrArg₂ Point.mk ?_ ?_ <;> simp <;> ring

end Segment

/-! ### Boxes -/

section Box

variable [IsStrictOrderedRing K] {t : K} (ht : 0 ≤ t) (ht' : t ≤ 1)
include ht ht'

/-- A number at most `u` and at most `v` is at most their mean with the weights `1 - t` and `t`. -/
theorem le_weighted {l u v : K} (hu : l ≤ u) (hv : l ≤ v) : l ≤ u * (1 - t) + v * t := by
  have hrest : 0 ≤ 1 - t := sub_nonneg.2 ht'
  calc
    l = l * (1 - t) + l * t := by ring
    _ ≤ u * (1 - t) + v * t := by gcongr

/-- A number at least `u` and at least `v` is at least their mean with these weights. -/
theorem weighted_le {r u v : K} (hu : u ≤ r) (hv : v ≤ r) : u * (1 - t) + v * t ≤ r := by
  have hrest : 0 ≤ 1 - t := sub_nonneg.2 ht'
  calc
    u * (1 - t) + v * t ≤ r * (1 - t) + r * t := by gcongr
    _ = r := by ring

namespace Box

variable {b : Box K}

theorem Holds.between {p q : Point K} (hp : b.Holds p) (hq : b.Holds q) :
    b.Holds (Point.between t p q) :=
  ⟨le_weighted ht ht' hp.x0_le hq.x0_le, weighted_le ht ht' hp.le_x1 hq.le_x1,
    le_weighted ht ht' hp.y0_le hq.y0_le, weighted_le ht ht' hp.le_y1 hq.le_y1⟩

theorem holds_divided {ps : List (Point K)} (hps : ∀ p ∈ ps, b.Holds p) :
    ∀ p ∈ divided t ps, b.Holds p := by
  intro p hp
  obtain ⟨⟨q, q'⟩, hmem, rfl⟩ := List.mem_map.1 hp
  obtain ⟨hq, hq'⟩ := List.of_mem_zip hmem
  exact (hps q hq).between ht ht' (hps q' (List.mem_of_mem_tail hq'))

/-- A box that holds points holds the point that repeated division leaves of them. -/
theorem holds_deCasteljau? {ps : List (Point K)} (hps : ∀ p ∈ ps, b.Holds p) {q : Point K}
    (hq : deCasteljau? t ps = some q) : b.Holds q := by
  induction ps using deCasteljau?.induct (t := t) with
  | case1 =>
      rw [deCasteljau?] at hq
      cases hq
  | case2 p =>
      rw [deCasteljau?, Option.some.injEq] at hq
      rw [← hq]
      exact hps p (List.mem_singleton_self p)
  | case3 p p' ps ih =>
      rw [deCasteljau?] at hq
      exact ih (holds_divided ht ht' hps) hq

/-- A box that holds the control points holds every point of the curve. -/
theorem holds_eval {s : Segment K} (hs : ∀ p ∈ s.controls, b.Holds p) : b.Holds (s.eval t) :=
  holds_deCasteljau? ht ht' hs (s.deCasteljau?_controls t)

end Box

end Box

/-! ### Chains -/

namespace Segment

theorem polyline_singleton (steps : Nat) (s : Segment K) :
    polyline steps [s] = samples steps s ++ [s.stop] := by
  simp [polyline]

/-- The polyline of a chain is the samples of its first curve, and then the polyline of the others. -/
theorem polyline_cons_cons (steps : Nat) (s s' : Segment K) (chain : List (Segment K)) :
    polyline steps (s :: s' :: chain) = samples steps s ++ polyline steps (s' :: chain) := by
  unfold polyline
  rw [List.flatMap_cons, List.append_assoc, List.getLast?_cons_cons]

theorem polyline_concat (steps : Nat) (s : Segment K) (chain : List (Segment K)) :
    polyline steps (chain ++ [s]) = chain.flatMap (samples steps) ++ polyline steps [s] := by
  unfold polyline
  rw [List.flatMap_append, List.append_assoc, List.getLast?_concat]
  rfl

theorem length_polyline (steps : Nat) {chain : List (Segment K)} (hchain : chain ≠ []) :
    (polyline steps chain).length = chain.length * steps + 1 := by
  unfold polyline
  rw [List.length_append, List.length_flatMap, List.getLast?_eq_some_getLast hchain]
  simp [length_samples]

theorem getElem?_samples {steps j : Nat} (hj : j < steps) (s : Segment K) :
    (samples steps s)[j]? = some (s.eval (j / steps)) := by
  unfold samples
  rw [List.getElem?_map, List.getElem?_range hj]
  rfl

theorem getElem?_flatMap_samples {steps i j : Nat} {chain : List (Segment K)} {s : Segment K}
    (hs : chain[i]? = some s) (hj : j < steps) :
    (chain.flatMap (samples steps))[i * steps + j]? = some (s.eval (j / steps)) := by
  induction chain generalizing i with
  | nil => cases hs
  | cons first chain ih =>
      rw [List.flatMap_cons]
      cases i with
      | zero =>
          cases hs
          rw [Nat.zero_mul, Nat.zero_add, List.getElem?_append_left (by rwa [length_samples]),
            getElem?_samples hj]
      | succ i =>
          -- the samples of the first curve are passed over
          have hindex : (i + 1) * steps + j = (samples steps first).length + (i * steps + j) := by
            rw [length_samples, Nat.succ_mul]
            omega
          rw [hindex, List.getElem?_append_right (Nat.le_add_right ..), Nat.add_sub_cancel_left]
          exact ih hs

/-- Sample `j` of curve `i` stands at place `i * steps + j` of the polyline. -/
theorem getElem?_polyline {steps i j : Nat} {chain : List (Segment K)} {s : Segment K}
    (hs : chain[i]? = some s) (hj : j < steps) :
    (polyline steps chain)[i * steps + j]? = some (s.eval (j / steps)) := by
  have hsample := getElem?_flatMap_samples hs hj
  obtain ⟨hlt, -⟩ := List.getElem?_eq_some_iff.1 hsample
  unfold polyline
  rw [List.getElem?_append_left hlt, hsample]

theorem getLast?_polyline (steps : Nat) {chain : List (Segment K)} (hchain : chain ≠ []) :
    (polyline steps chain).getLast? = chain.getLast?.map stop := by
  unfold polyline
  rw [List.getLast?_eq_some_getLast hchain]
  exact List.getLast?_concat

/-- A box that holds all control points holds the polyline. -/
theorem holds_of_mem_polyline [IsStrictOrderedRing K] (steps : Nat) {chain : List (Segment K)}
    {b : Box K} (hb : ∀ p ∈ chain.flatMap controls, b.Holds p) :
    ∀ p ∈ polyline steps chain, b.Holds p := by
  intro p hp
  have hcurve : ∀ s ∈ chain, ∀ p ∈ s.controls, b.Holds p :=
    fun s hs p hp => hb p (List.mem_flatMap.2 ⟨s, hs, hp⟩)
  unfold polyline at hp
  rcases List.mem_append.1 hp with hsample | hstop
  · obtain ⟨s, hs, hsample⟩ := List.mem_flatMap.1 hsample
    obtain ⟨i, hi, rfl⟩ := List.mem_map.1 hsample
    have hlt : (i : K) < steps := Nat.cast_lt.2 (List.mem_range.1 hi)
    have hpos : (0 : K) ≤ i := Nat.cast_nonneg i
    exact Box.holds_eval (div_nonneg hpos (hpos.trans hlt.le))
      (div_le_one_of_le₀ hlt.le (hpos.trans hlt.le)) (hcurve s hs)
  · obtain ⟨s, hs, rfl⟩ := List.mem_map.1 hstop
    have hmem : s ∈ chain := List.mem_of_getLast? (Option.mem_toList.1 hs)
    exact hcurve s hmem s.stop (by simp [controls])

/-! ### Backwards -/

section Reversal

variable [IsStrictOrderedRing K] {steps : Nat} (hsteps : steps ≠ 0)
include hsteps

/-- With its stop point, a curve is sampled at the parameters `0, 1 / steps, …, 1`. -/
theorem samples_append_stop (s : Segment K) :
    samples steps s ++ [s.stop] =
      (List.range (steps + 1)).map fun (i : Nat) => s.eval ((i : K) / (steps : K)) := by
  have hone : (steps : K) / (steps : K) = 1 := div_self (Nat.cast_ne_zero.2 hsteps)
  rw [List.range_succ, List.map_append, List.map_singleton, hone, eval_one]
  rfl

/-- The samples of a curve run through backwards are those of the curve, backwards. -/
theorem samples_reversed_append_start (s : Segment K) :
    samples steps s.reversed ++ [s.start] = (samples steps s ++ [s.stop]).reverse := by
  have hturned := samples_append_stop hsteps s.reversed
  have hreverse : (List.range (steps + 1)).reverse = (List.range (steps + 1)).map (steps - ·) := by
    rw [List.range_eq_range', List.reverse_range', ← List.range_eq_range']
    exact List.map_congr_left fun i _ => by omega
  rw [samples_append_stop hsteps s, ← List.map_reverse, hreverse, List.map_map]
  refine hturned.trans (List.map_congr_left fun i hi => ?_)
  have hle : i ≤ steps := Nat.lt_succ_iff.1 (List.mem_range.1 hi)
  have hopposite : 1 - (i : K) / (steps : K) = ((steps - i : Nat) : K) / (steps : K) := by
    rw [Nat.cast_sub hle, sub_div, div_self (Nat.cast_ne_zero.2 hsteps)]
  rw [eval_reversed, hopposite]
  rfl

/-- The polyline of a connected chain **run through backwards**. -/
theorem polyline_reversed {chain : List (Segment K)} (hchain : Connected chain) :
    polyline steps (chain.reverse.map reversed) = (polyline steps chain).reverse := by
  induction chain with
  | nil => rfl
  | cons s chain ih =>
      cases chain with
      | nil =>
          rw [polyline_singleton, List.reverse_singleton, List.map_singleton, polyline_singleton]
          exact samples_reversed_append_start hsteps s
      | cons s' chain =>
          obtain ⟨hmeet, hrest⟩ := List.isChain_cons_cons.1 hchain
          have hbackwards := samples_reversed_append_start hsteps s
          rw [List.reverse_append, List.reverse_singleton] at hbackwards
          -- the rest, run through backwards, ends where the first curve stops
          have hlast : polyline steps ((s' :: chain).reverse.map reversed) =
              ((s' :: chain).reverse.map reversed).flatMap (samples steps) ++ [s.stop] := by
            unfold polyline
            rw [List.reverse_cons, List.map_append, List.map_singleton, List.getLast?_concat, ← hmeet]
            rfl
          rw [List.reverse_cons, List.map_append, List.map_singleton, polyline_concat,
            polyline_singleton, polyline_cons_cons, List.reverse_append, ← ih hrest, hlast,
            List.append_assoc, ← hbackwards]
          rfl

end Reversal

/-- The polyline of a chain. -/
structure Flattening (steps : Nat) (chain : List (Segment K)) (ps : List (Point K)) : Prop where
  /-- There are as many points for each curve, and one more, -/
  length_eq : ps.length = chain.length * steps + 1
  /-- each of them found by division at the parameter of its place, -/
  getElem?_eq : ∀ (i j : Nat) s, chain[i]? = some s → j < steps →
    ps[i * steps + j]? = deCasteljau? ((j : K) / (steps : K)) s.controls
  /-- so that every curve begins at its start, -/
  getElem?_start : ∀ (i : Nat) s, chain[i]? = some s → ps[i * steps]? = some s.start
  /-- and the last one ends at its stop point. -/
  getLast?_eq : ps.getLast? = chain.getLast?.map stop
  /-- All points are in the least box around the control points. -/
  exists_isLeast : ∃ b : Box K, b.IsLeast (chain.flatMap controls) ∧ ∀ p ∈ ps, b.Holds p
  /-- Run through backwards, a chain that hangs together has the same polyline, backwards. -/
  reverse_eq : Connected chain → polyline steps (chain.reverse.map reversed) = ps.reverse

/-- **The polyline of every chain** of one curve or more, sampled at least once. -/
theorem polyline_flattening [IsStrictOrderedRing K] {steps : Nat} (hsteps : 1 ≤ steps)
    {chain : List (Segment K)} (hchain : chain ≠ []) :
    Flattening steps chain (polyline steps chain) where
  length_eq := length_polyline steps hchain
  getElem?_eq i j s hs hj := by rw [getElem?_polyline hs hj, deCasteljau?_controls]
  getElem?_start i s hs := by
    have hstart := getElem?_polyline hs hsteps
    rw [Nat.add_zero, Nat.cast_zero, zero_div, eval_zero] at hstart
    exact hstart
  getLast?_eq := getLast?_polyline steps hchain
  exists_isLeast := by
    obtain ⟨s, hs⟩ := List.exists_mem_of_ne_nil chain hchain
    have hcontrols : s.start ∈ chain.flatMap controls :=
      List.mem_flatMap.2 ⟨s, hs, List.mem_cons_self ..⟩
    obtain ⟨b, -, hb⟩ := Box.exists_isLeast (List.ne_nil_of_mem hcontrols)
    exact ⟨b, hb, holds_of_mem_polyline steps hb.holds⟩
  reverse_eq := polyline_reversed (Nat.one_le_iff_ne_zero.1 hsteps)

end Segment

/-- A quarter turn to the right, and another one. -/
def halfTurn : List (Segment ℚ) :=
  [⟨⟨0, 0⟩, ⟨0, 5⟩, ⟨5, 10⟩, ⟨10, 10⟩⟩, ⟨⟨10, 10⟩, ⟨15, 10⟩, ⟨20, 5⟩, ⟨20, 0⟩⟩]

/-- The polyline of the half turn, and of the half turn back. -/
theorem Segment.polyline_flattening_halfTurn :
    1 ≤ 4 ∧ halfTurn ≠ [] ∧ Connected halfTurn ∧ (polyline 4 halfTurn).length = 9 ∧
      (polyline 4 halfTurn)[6]? = some ⟨135 / 8, 55 / 8⟩ ∧
      polyline 4 (halfTurn.reverse.map reversed) = (polyline 4 halfTurn).reverse ∧
      Flattening 4 halfTurn (polyline 4 halfTurn) := by
  have hflat : Flattening 4 halfTurn (polyline 4 halfTurn) :=
    polyline_flattening (by decide) (by decide)
  have hconnected : Connected halfTurn := by
    unfold Connected
    decide +kernel
  exact ⟨by decide, by decide, hconnected, hflat.length_eq, by decide +kernel,
    hflat.reverse_eq hconnected, hflat⟩

end Artwork
