import Artwork.Proofs.Path.Invariant
import Mathlib.Data.List.Chain

/-!
**Where lines and curves start.**

A line goes on from the end of the open polyline, and a curve starts at the current point.  So a
line starts at the current point exactly if the open polyline ends there, and a chain of curves hangs
together exactly if every curve was added while the open chain ended at the current point.  This is
so as long as the kind does not change.  After a change of the kind, an open subpath is resumed
where it was left, wherever the current point is by then.

Main definitions:

* `Segment.Connected` — curves of which **each starts where the one before it stops**;
* `Path.ChainsConnected` — all chains of a path, closed or open.

Main results:

* `Path.suffix_opened_lineTo_iff` — when a line starts at the current point;
* `Path.chainsConnected_step_of_isCurve` — when a curve goes on from the one before it;
* `Path.continuity_run` — **lines and curves of every path that can be built**.
-/

set_option relaxedAutoImplicit false
set_option autoImplicit false

namespace Artwork

variable {K : Type}

/-- Each of the segments **starts where the one before it stops**. -/
def Segment.Connected (segments : List (Segment K)) : Prop :=
  segments.IsChain fun s t => t.start = s.stop

/-- The step adds a curve. -/
def Construction.isCurve : Construction K → Bool
  | curveTo .. | curveFromCurrent .. | curveIntoStop .. => true
  | _ => false

namespace Path

/-- All chains of curves hang together, the closed ones and the open one. -/
structure ChainsConnected (path : Path K) : Prop where
  closed : ∀ chain ∈ path.curves.closed, Segment.Connected chain
  opened : Segment.Connected path.curves.opened

/-! ### Lines -/

theorem pair_suffix_concat_iff {α : Type} {as : List α} {a b : α} :
    [a, b] <:+ as ++ [b] ↔ as.getLast? = some a := by
  constructor
  · rintro ⟨front, h⟩
    rw [List.append_cons] at h
    rw [← List.append_cancel_right h, List.getLast?_concat]
  · intro h
    rw [← List.dropLast_append_getLast? a h, List.append_assoc]
    exact List.suffix_append ..

/-- A line starts at the current point **exactly if the open polyline ends there**. -/
theorem suffix_opened_lineTo_iff {path : Path K} {cp : Point K} (hcurrent : path.current = some cp)
    (p : Point K) : [cp, p] <:+ (path.lineTo p).lines.opened ↔ path.LinesMeet := by
  unfold lineTo drawn LinesMeet
  dsimp only
  rw [pair_suffix_concat_iff, hcurrent]
  cases hopened : path.lines.opened with
  | nil => exact iff_of_true rfl nofun
  | cons v vs =>
      obtain ⟨last, hlast⟩ : ∃ last, (v :: vs).getLast? = some last :=
        ⟨_, List.getLast?_eq_some_getLast (List.cons_ne_nil v vs)⟩
      rw [if_neg (by simp), hlast]
      constructor
      · rintro ⟨⟩ _ h
        exact h
      · intro h
        exact (h last rfl).symm

/-! ### Chains of curves -/

theorem chainsConnected_empty : (empty : Path K).ChainsConnected where
  closed := nofun
  opened := .nil

/-- With one more curve the chains hang together exactly if they do so without it, and the open one ends
at the current point. -/
theorem chainsConnected_curveTo_iff {path : Path K} {cp : Point K}
    (hcurrent : path.current = some cp) (c₁ c₂ stop : Point K) :
    (path.curveTo c₁ c₂ stop).ChainsConnected ↔ path.ChainsConnected ∧ path.CurvesMeet := by
  have hstep : path.curveTo c₁ c₂ stop =
      { path with curves := path.curves.push ⟨cp, c₁, c₂, stop⟩ }.drawn .curves stop := by
    unfold curveTo
    rw [hcurrent]
  have hopened : Segment.Connected (path.curves.opened ++ [⟨cp, c₁, c₂, stop⟩]) ↔
      Segment.Connected path.curves.opened ∧ path.CurvesMeet := by
    unfold Segment.Connected CurvesMeet
    rw [List.isChain_append, hcurrent]
    simp [eq_comm]
  rw [hstep]
  constructor
  · rintro ⟨hclosed, hpushed⟩
    obtain ⟨hopen, hmeet⟩ := hopened.1 hpushed
    exact ⟨⟨hclosed, hopen⟩, hmeet⟩
  · rintro ⟨⟨hclosed, hopen⟩, hmeet⟩
    exact ⟨hclosed, hopened.2 ⟨hopen, hmeet⟩⟩

variable [Scalar K]

/-- After a step that adds a curve the chains hang together **exactly if** they did so before, and the
open one ended at the current point. -/
theorem chainsConnected_step_of_isCurve {path : Path K} {cp : Point K}
    (hcurrent : path.current = some cp) {s : Construction K} (hs : s.isCurve = true) :
    (path.step s).ChainsConnected ↔ path.ChainsConnected ∧ path.CurvesMeet := by
  cases s with
  | curveTo c₁ c₂ stop => exact chainsConnected_curveTo_iff hcurrent c₁ c₂ stop
  | curveFromCurrent c₂ stop =>
      have hstep : path.step (.curveFromCurrent c₂ stop) = path.curveTo cp c₂ stop := by
        simp only [step, curveFromCurrent, hcurrent]
      rw [hstep]
      exact chainsConnected_curveTo_iff hcurrent cp c₂ stop
  | curveIntoStop c₁ stop => exact chainsConnected_curveTo_iff hcurrent c₁ stop stop
  | _ => cases hs

/-- Without a current point a step that adds curves changes nothing. -/
theorem step_of_isCurve_of_current {path : Path K} (hcurrent : path.current = none)
    {s : Construction K} (hs : s.isCurve = true) : path.step s = path := by
  cases s with
  | curveTo | curveIntoStop => simp only [step, curveIntoStop, curveTo, hcurrent]
  | curveFromCurrent => simp only [step, curveFromCurrent, hcurrent]
  | _ => cases hs

namespace ChainsConnected

variable {path : Path K}

/-- The other steps keep connected chains connected. -/
theorem step (h : path.ChainsConnected) {s : Construction K} (hs : s.isCurve = false) :
    (path.step s).ChainsConnected := by
  cases s with
  | moveTo p => exact ⟨h.closed, .nil⟩
  | lineTo | rectangle => exact ⟨h.closed, h.opened⟩
  | closePath =>
      unfold Path.step closePath
      dsimp only
      split
      · exact ⟨h.closed, h.opened⟩
      · exact ⟨h.closed, h.opened⟩
      · refine ⟨fun chain hchain => ?_, by rw [Buffer.close_eq]; exact .nil⟩
        rw [Buffer.close_eq, List.mem_append, Buffer.opened?] at hchain
        rcases hchain with hchain | hchain
        · exact h.closed chain hchain
        · split at hchain
          · cases hchain
          · obtain rfl := List.mem_singleton.1 hchain
            exact h.opened
      · exact ⟨h.closed, h.opened⟩
  | clip =>
      unfold Path.step clip
      dsimp only
      split
      · exact ⟨h.closed, h.opened⟩
      · exact ⟨h.closed, h.opened⟩
      · refine ⟨fun chain hchain => h.closed chain ?_, .nil⟩
        unfold Buffer.drop at hchain
        dsimp only at hchain
        split at hchain
        · exact List.dropLast_subset _ hchain
        · exact hchain
      · exact ⟨h.closed, h.opened⟩
  | curveTo | curveFromCurrent | curveIntoStop => cases hs

end ChainsConnected

/-- The chains of all paths on the way hang together exactly if every curve was added while the open
chain ended at the current point. -/
theorem chainsConnected_run_iff (steps : List (Construction K)) :
    (∀ early later, steps = early ++ later → ((empty : Path K).run early).ChainsConnected) ↔
      ∀ early s later, steps = early ++ s :: later → s.isCurve = true →
        ((empty : Path K).run early).CurvesMeet := by
  constructor
  · rintro h early s later rfl hs
    have hafter := h (early ++ [s]) later (by rw [List.append_assoc]; rfl)
    rw [run_append, run_cons, run_nil] at hafter
    cases hcurrent : ((empty : Path K).run early).current with
    | some cp => exact ((chainsConnected_step_of_isCurve hcurrent hs).1 hafter).2
    | none =>
        -- nothing has been drawn yet
        have hnone : ((empty : Path K).run early).active = none := by
          by_contra hactive
          have hsome := (wellFormed_run early).isSome_current hactive
          rw [hcurrent] at hsome
          cases hsome
        rw [(wellFormed_run early).eq_empty hnone]
        exact curvesMeet_of_opened rfl
  · intro h early
    induction early using List.reverseRecOn with
    | nil => exact fun _ _ => chainsConnected_empty
    | append_singleton early s ih =>
        rintro later rfl
        rw [List.append_assoc] at h ih
        have hbefore := ih _ rfl
        rw [run_append, run_cons, run_nil]
        cases hs : s.isCurve with
        | false => exact hbefore.step hs
        | true =>
            cases hcurrent : ((empty : Path K).run early).current with
            | some cp =>
                exact (chainsConnected_step_of_isCurve hcurrent hs).2
                  ⟨hbefore, h early s later rfl hs⟩
            | none => rwa [step_of_isCurve_of_current hcurrent hs]

/-- In every path that can be built, a line starts at the current point exactly if the open polyline
ends there, and the chains of curves hang together exactly if every curve was added where the open
chain ended.  Both are so **as long as the kind is still the active one**. -/
theorem continuity_run (steps : List (Construction K)) :
    (∀ cp, ((empty : Path K).run steps).current = some cp → ∀ p,
        ([cp, p] <:+ (((empty : Path K).run steps).lineTo p).lines.opened ↔
          ((empty : Path K).run steps).LinesMeet)) ∧
      ((∀ early later, steps = early ++ later → ((empty : Path K).run early).ChainsConnected) ↔
        ∀ early s later, steps = early ++ s :: later → s.isCurve = true →
          ((empty : Path K).run early).CurvesMeet) ∧
      (((empty : Path K).run steps).active = some .lines →
        ((empty : Path K).run steps).LinesMeet) ∧
      (((empty : Path K).run steps).active = some .curves →
        ((empty : Path K).run steps).CurvesMeet) :=
  ⟨fun _ hcurrent p => suffix_opened_lineTo_iff hcurrent p, chainsConnected_run_iff steps,
    (wellFormed_run steps).linesMeet, (wellFormed_run steps).curvesMeet⟩

/-- Two curves, one after the other. -/
def twoCurves : List (Construction Float) :=
  [.moveTo ⟨0, 0⟩, .curveTo ⟨0, 1⟩ ⟨1, 2⟩ ⟨2, 2⟩, .curveFromCurrent ⟨3, 2⟩ ⟨4, 0⟩]

theorem continuity_run_twoCurves :
    ((empty : Path Float).run (twoCurves.take 1)).current = some ⟨0, 0⟩ ∧
      [⟨0, 0⟩, ⟨1, 0⟩] <:+
        (((empty : Path Float).run (twoCurves.take 1)).lineTo ⟨1, 0⟩).lines.opened ∧
      ((empty : Path Float).run twoCurves).current = some ⟨4, 0⟩ ∧
      ((empty : Path Float).run twoCurves).ChainsConnected := by
  have hline := continuity_run (twoCurves.take 1)
  have hcurves := continuity_run twoCurves
  refine ⟨rfl, (hline.1 _ rfl _).2 (hline.2.2.1 rfl), rfl, hcurves.2.1.2 ?_ twoCurves [] rfl⟩
  rintro early s later h hs
  -- the curves are the second step, when nothing is open, and the third
  rcases early with _ | ⟨_, _ | ⟨_, _ | ⟨_, early⟩⟩⟩
  · obtain ⟨rfl, -⟩ := List.cons.inj h
    cases hs
  · obtain ⟨rfl, -⟩ := List.cons.inj h
    exact curvesMeet_of_opened rfl
  · obtain ⟨rfl, htail⟩ := List.cons.inj h
    obtain ⟨rfl, -⟩ := List.cons.inj htail
    exact (continuity_run (twoCurves.take 2)).2.2.2 rfl
  · simp [twoCurves] at h

/-- A polyline that is left open when a rectangle is drawn and closed. -/
def lineLeftOpen : List (Construction Float) :=
  [.moveTo ⟨0, 0⟩, .lineTo ⟨1, 0⟩, .rectangle ⟨5, 5⟩ ⟨1, 1⟩, .closePath]

/-- A curve that is left open when a rectangle is drawn and closed, and a curve after that. -/
def curveLeftOpen : List (Construction Float) :=
  [.moveTo ⟨0, 0⟩, .curveTo ⟨0, 1⟩ ⟨1, 1⟩ ⟨1, 0⟩, .rectangle ⟨5, 5⟩ ⟨1, 1⟩, .closePath,
    .curveTo ⟨5, 6⟩ ⟨6, 6⟩ ⟨6, 5⟩]

/-- After a rectangle the line **does not start at the current point**, its corner, but where the
polyline was left, and the curve is joined to a chain that stops elsewhere. -/
theorem not_continuous_leftOpen :
    (((empty : Path Float).run lineLeftOpen).current = some ⟨5, 5⟩ ∧
      (((empty : Path Float).run lineLeftOpen).lineTo ⟨7, 7⟩).lines.opened =
        [⟨0, 0⟩, ⟨1, 0⟩, ⟨7, 7⟩] ∧
      ¬ [⟨5, 5⟩, ⟨7, 7⟩] <:+
        (((empty : Path Float).run lineLeftOpen).lineTo ⟨7, 7⟩).lines.opened) ∧
    (((empty : Path Float).run curveLeftOpen).curves.opened =
        [⟨⟨0, 0⟩, ⟨0, 1⟩, ⟨1, 1⟩, ⟨1, 0⟩⟩, ⟨⟨5, 5⟩, ⟨5, 6⟩, ⟨6, 6⟩, ⟨6, 5⟩⟩] ∧
      ¬ ((empty : Path Float).run curveLeftOpen).ChainsConnected) := by
  have hline : (((empty : Path Float).run lineLeftOpen).lineTo ⟨7, 7⟩).lines.opened =
      [⟨0, 0⟩, ⟨1, 0⟩, ⟨7, 7⟩] := rfl
  have hcurves : ((empty : Path Float).run curveLeftOpen).curves.opened =
      [⟨⟨0, 0⟩, ⟨0, 1⟩, ⟨1, 1⟩, ⟨1, 0⟩⟩, ⟨⟨5, 5⟩, ⟨5, 6⟩, ⟨6, 6⟩, ⟨6, 5⟩⟩] := rfl
  refine ⟨⟨rfl, hline, by rw [hline]; decide +kernel⟩, hcurves, fun h => ?_⟩
  have hopened := h.opened
  rw [hcurves] at hopened
  exact absurd (List.isChain_cons_cons.1 hopened).1 (by decide +kernel)

end Path

end Artwork
