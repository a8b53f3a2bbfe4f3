import Artwork.Proofs.Path.Invariant

/-!
**Paths that go on after a clip.**

A clip drops at most one subpath that was closed.  What it keeps stays in the buffers, and a path
that is begun anew after the clip has it in front: every step does to such a path what it does to the
path without it.  So a painting operator is handed what the clip has kept of the active kind, and
then what was built since.

Main definitions:

* `Path.resumed` — a path with what is kept of another one **in front**;
* `Path.kept` — what a path keeps of each kind;
* `Path.handed` — the subpaths that a painting operator is handed;
* `Path.Settles` — a path in which a rectangle that was left open may have been closed;
* `Path.Clipped` — what a clip leaves: nothing open of the active kind;
* `Path.BeginsAnew` — steps that begin a subpath of their own.

Main results:

* `Path.resumed_run` — building goes on as if nothing had been kept;
* `Path.Clipped.handed_run` — what a painting operator is handed after a clip;
* `Path.Clipped.pending?_run_iff` — when it is the same **as without what was kept**.
-/

set_option relaxedAutoImplicit false
set_option autoImplicit false

namespace Artwork

namespace Buffer

variable {α : Type}

/-- The buffer with closed subpaths in front of its own. -/
def behind (b : Buffer α) (front : List (List α)) : Buffer α :=
  { b with closed := front ++ b.closed }

theorem close_behind (b : Buffer α) (front : List (List α)) :
    (b.behind front).close = b.close.behind front := by
  rw [close_eq, close_eq]
  exact congrArg (Buffer.mk []) (List.append_assoc ..)

/-- Closed subpaths in front are not dropped, if the buffer has one of its own to be dropped. -/
theorem drop_behind {b : Buffer α} {lastClosed : Bool} (h : lastClosed = true → b.closed ≠ [])
    (front : List (List α)) :
    (b.behind front).drop lastClosed = (b.drop lastClosed).behind front := by
  cases lastClosed with
  | false => rfl
  | true => exact congrArg (Buffer.mk []) (List.dropLast_append_of_ne_nil (h rfl))

theorem close_of_opened {b : Buffer α} (h : b.opened = []) : b.close = b := by
  rw [close, h]
  rfl

theorem opened?_of_opened {b : Buffer α} (h : b.opened = []) : b.opened? = none := by
  rw [opened?, h]
  rfl

theorem drop_of_opened {b : Buffer α} (h : b.opened = []) : b.drop false = b := by
  rw [drop, ← h]
  rfl

end Buffer

/-- The step adds something to a path. -/
def Construction.adds {K : Type} : Construction K → Bool
  | closePath | clip => false
  | _ => true

namespace Path

variable {K : Type}

/-- The path with what is kept of another one **in front**: its closed subpaths and its rectangles.
A polyline or a chain of curves that the other one has left open does not come along. -/
def resumed (before path : Path K) : Path K :=
  { path with
    lines := path.lines.behind before.lines.closed
    curves := path.curves.behind before.curves.closed
    rectangles := path.rectangles.behind before.rectangles.close.closed }

/-- What a path keeps of each kind when another one is begun. -/
def kept (path : Path K) : Option SubpathKind → List (Subpath K)
  | none => []
  | some .lines => path.lines.closed.map .lines
  | some .curves => path.curves.closed.map .curves
  | some .rectangle => path.rectangles.close.closed.map .rectangle

/-- All subpaths that a painting operator is handed. -/
def handed (path : Path K) : List (Subpath K) :=
  path.pending?.elim [] PendingPath.subpaths

theorem handed_eq (path : Path K) :
    path.handed = path.active.elim [] fun kind => (path.held kind).subpaths := by
  unfold handed pending?
  cases path.active with
  | none => rfl
  | some kind =>
      rw [Option.map_some, Option.filter_some]
      split
      · rfl
      · next hempty =>
          -- no subpath at all is handed over as none
          have hnone : (path.held kind).isEmpty = true := by simpa using hempty
          unfold PendingPath.isEmpty at hnone
          rw [Bool.and_eq_true, List.isEmpty_iff, Option.isNone_iff_eq_none] at hnone
          exact (by rw [PendingPath.subpaths, hnone.1, hnone.2]; rfl :
            (path.held kind).subpaths = []).symm

/-- Paths with the same active kind hand over the same, if they hold the same of this kind. -/
theorem pending?_congr {path path' : Path K} (hactive : path'.active = path.active)
    (hheld : ∀ kind, path.active = some kind → path'.held kind = path.held kind) :
    path'.pending? = path.pending? := by
  unfold pending?
  rw [hactive]
  cases hkind : path.active with
  | none => rfl
  | some kind => rw [Option.map_some, Option.map_some, hheld kind hkind]

/-! ### Building goes on -/

variable {path : Path K}

theorem active_resumed (before path : Path K) : (before.resumed path).active = path.active := rfl

theorem held_resumed (before path : Path K) (kind : SubpathKind) :
    (before.resumed path).held kind =
      { path.held kind with closed := before.kept (some kind) ++ (path.held kind).closed } := by
  cases kind <;> exact congrArg (PendingPath.mk _ · _) (List.map_append ..)

theorem curveTo_resumed (before path : Path K) (c₁ c₂ stop : Point K) :
    (before.resumed path).curveTo c₁ c₂ stop = before.resumed (path.curveTo c₁ c₂ stop) := by
  unfold curveTo
  rw [show (before.resumed path).current = path.current from rfl]
  split <;> rfl

theorem clip_resumed (before : Path K) (h : path.WellFormed) :
    (before.resumed path).clip = before.resumed path.clip := by
  have hclosed : ∀ {kind}, path.active = some kind → path.justClosed = true →
      (path.held kind).closed ≠ [] := by
    intro kind hactive hjust
    obtain ⟨kind', hactive', hne, -⟩ := h.exists_closed hjust
    rw [hactive, Option.some.injEq] at hactive'
    rwa [hactive']
  match hactive : path.active with
  | none =>
      rw [clip_of_none hactive, clip_of_none ((active_resumed before path).trans hactive)]
      rfl
  | some .lines =>
      have hdrop := Buffer.drop_behind (b := path.lines)
        (fun hjust hnil => hclosed hactive hjust (congrArg (List.map _) hnil)) before.lines.closed
      rw [clip_of_lines hactive, clip_of_lines ((active_resumed before path).trans hactive)]
      unfold resumed
      rw [hdrop]
  | some .curves =>
      have hdrop := Buffer.drop_behind (b := path.curves)
        (fun hjust hnil => hclosed hactive hjust (congrArg (List.map _) hnil)) before.curves.closed
      rw [clip_of_curves hactive, clip_of_curves ((active_resumed before path).trans hactive)]
      unfold resumed
      rw [hdrop]
  | some .rectangle =>
      have hdrop := Buffer.drop_behind (b := path.rectangles)
        (fun hjust hnil => hclosed hactive hjust (congrArg (List.map _) hnil))
        before.rectangles.close.closed
      rw [clip_of_rectangle hactive, clip_of_rectangle ((active_resumed before path).trans hactive)]
      unfold resumed
      rw [hdrop]

section Scalar

variable [Scalar K]

theorem closePath_resumed (before path : Path K) :
    (before.resumed path).closePath = before.resumed path.closePath := by
  match hactive : path.active with
  | none =>
      rw [closePath_of_none hactive,
        closePath_of_none ((active_resumed before path).trans hactive)]
      rfl
  | some .lines =>
      rw [closePath_of_lines hactive,
        closePath_of_lines ((active_resumed before path).trans hactive)]
      unfold resumed
      rw [← Buffer.close_behind]
      rfl
  | some .curves =>
      rw [closePath_of_curves hactive,
        closePath_of_curves ((active_resumed before path).trans hactive)]
      unfold resumed
      rw [← Buffer.close_behind]
      rfl
  | some .rectangle =>
      rw [closePath_of_rectangle hactive,
        closePath_of_rectangle ((active_resumed before path).trans hactive)]
      unfold resumed
      rw [← Buffer.close_behind]
      rfl

/-- Every step does to the path what it does without what is in front. -/
theorem step_resumed (before : Path K) (h : path.WellFormed) (s : Construction K) :
    (before.resumed path).step s = before.resumed (path.step s) := by
  cases s with
  | moveTo | lineTo => rfl
  | curveTo c₁ c₂ stop => exact curveTo_resumed before path c₁ c₂ stop
  | curveIntoStop c₁ stop => exact curveTo_resumed before path c₁ stop stop
  | curveFromCurrent c₂ stop =>
      simp only [step, curveFromCurrent]
      rw [show (before.resumed path).current = path.current from rfl]
      split
      · rfl
      · exact curveTo_resumed before path _ c₂ stop
  | rectangle origin extent =>
      simp only [step, rectangle, resumed, Buffer.close_behind]
      rfl
  | closePath => exact closePath_resumed before path
  | clip => exact clip_resumed before h

/-- Building goes on **as if nothing were in front**. -/
theorem resumed_run (before : Path K) (h : path.WellFormed) (steps : List (Construction K)) :
    (before.resumed path).run steps = before.resumed (path.run steps) := by
  induction steps generalizing path with
  | nil => rfl
  | cons s steps ih => rw [run_cons, step_resumed before h, ih (h.step s), run_cons]

end Scalar

/-! ### Rectangles that were left open -/

/-- The same path, unless another kind than rectangles is active: then a rectangle that was left
open may have been closed. -/
def Settles (path settled : Path K) : Prop :=
  settled = path ∨
    path.active ≠ some .rectangle ∧ settled = { path with rectangles := path.rectangles.close }

namespace Settles

variable {settled : Path K}

theorem active_eq (h : path.Settles settled) : settled.active = path.active := by
  rcases h with rfl | ⟨-, rfl⟩ <;> rfl

/-- Both hand over the same. -/
theorem pending?_eq (h : path.Settles settled) : settled.pending? = path.pending? := by
  refine pending?_congr h.active_eq fun kind hactive => ?_
  rcases h with rfl | ⟨hne, rfl⟩
  · rfl
  · cases kind with
    | lines | curves => rfl
    | rectangle => exact absurd hactive hne

theorem curveTo (h : path.Settles settled) (c₁ c₂ stop : Point K) :
    (path.curveTo c₁ c₂ stop).Settles (settled.curveTo c₁ c₂ stop) := by
  rcases h with rfl | ⟨hne, rfl⟩
  · exact Or.inl rfl
  · refine Or.inr ?_
    unfold Path.curveTo
    dsimp only
    split
    · exact ⟨hne, rfl⟩
    · exact ⟨nofun, rfl⟩

variable [Scalar K]

theorem step (h : path.Settles settled) (s : Construction K) :
    (path.step s).Settles (settled.step s) := by
  rcases h with rfl | ⟨hne, rfl⟩
  · exact Or.inl rfl
  have hsettles : path.Settles { path with rectangles := path.rectangles.close } :=
    Or.inr ⟨hne, rfl⟩
  cases s with
  | moveTo | lineTo => exact Or.inr ⟨nofun, rfl⟩
  | curveTo c₁ c₂ stop => exact hsettles.curveTo c₁ c₂ stop
  | curveIntoStop c₁ stop => exact hsettles.curveTo c₁ stop stop
  | curveFromCurrent c₂ stop =>
      simp only [Path.step, curveFromCurrent]
      split
      · exact hsettles
      · exact hsettles.curveTo _ c₂ stop
  | rectangle origin extent =>
      -- the next rectangle closes the one that was left open
      refine Or.inl ?_
      simp only [Path.step, rectangle, Buffer.close_of_opened (Buffer.opened_close path.rectangles)]
  | closePath =>
      refine Or.inr ?_
      simp only [Path.step, closePath]
      split
      · exact ⟨hne, rfl⟩
      · exact ⟨hne, rfl⟩
      · exact ⟨hne, rfl⟩
      · next hactive => exact absurd hactive hne
  | clip =>
      refine Or.inr ?_
      simp only [Path.step, clip]
      split
      · exact ⟨hne, rfl⟩
      · exact ⟨hne, rfl⟩
      · exact ⟨hne, rfl⟩
      · next hactive => exact absurd hactive hne

theorem run (h : path.Settles settled) (steps : List (Construction K)) :
    (path.run steps).Settles (settled.run steps) := by
  induction steps generalizing path settled with
  | nil => exact h
  | cons s steps ih => exact ih (h.step s)

end Settles

/-! ### A new beginning -/

/-- Nothing of the active kind is open, and nothing was just closed. -/
structure Clipped (path : Path K) : Prop where
  justClosed : path.justClosed = false
  lines : path.active = some .lines → path.lines.opened = []
  curves : path.active = some .curves → path.curves.opened = []
  rectangles : path.active = some .rectangle → path.rectangles.opened = []

theorem active_clip (path : Path K) : path.clip.active = path.active := by
  unfold clip
  dsimp only
  split <;> rfl

theorem clipped_clip (path : Path K) : path.clip.Clipped where
  justClosed := by
    unfold clip
    dsimp only
    split <;> rfl
  lines h := by
    rw [active_clip] at h
    rw [clip_of_lines h]
    rfl
  curves h := by
    rw [active_clip] at h
    rw [clip_of_curves h]
    rfl
  rectangles h := by
    rw [active_clip] at h
    rw [clip_of_rectangle h]
    rfl

theorem ledBack_nil [Scalar K] (start : Option (Point K)) : ledBack start [] = [] := by
  cases start <;> rfl

namespace Clipped

/-- What is held of the active kind is what is kept of it, and nothing open. -/
theorem held_eq (h : path.Clipped) {kind : SubpathKind} (hactive : path.active = some kind) :
    path.held kind = ⟨kind, path.kept (some kind), none⟩ := by
  cases kind with
  | lines =>
      rw [held, Buffer.opened?_of_opened (h.lines hactive)]
      rfl
  | curves =>
      rw [held, Buffer.opened?_of_opened (h.curves hactive)]
      rfl
  | rectangle =>
      rw [held, Buffer.opened?_of_opened (h.rectangles hactive), kept,
        Buffer.close_of_opened (h.rectangles hactive)]
      rfl

theorem clip_eq (h : path.Clipped) : path.clip = path := by
  match hactive : path.active with
  | none =>
      rw [clip_of_none hactive, ← h.justClosed]
  | some .lines =>
      rw [clip_of_lines hactive, h.justClosed, Buffer.drop_of_opened (h.lines hactive),
        ← h.justClosed]
  | some .curves =>
      rw [clip_of_curves hactive, h.justClosed, Buffer.drop_of_opened (h.curves hactive),
        ← h.justClosed]
  | some .rectangle =>
      rw [clip_of_rectangle hactive, h.justClosed, Buffer.drop_of_opened (h.rectangles hactive),
        ← h.justClosed]

variable [Scalar K]

/-- With nothing open, closing changes only the current point and whether the path counts as closed. -/
theorem closePath_eq (h : path.Clipped) :
    ∃ isClosed,
      path.closePath = { path with current := path.start.or path.current, isClosed := isClosed } := by
  match hactive : path.active with
  | none => exact ⟨path.isClosed, by rw [closePath_of_none hactive, ← h.justClosed, hactive]⟩
  | some .lines =>
      have hopened := h.lines hactive
      have hsame : (⟨[], path.lines.closed⟩ : Buffer (Point K)).close = path.lines := by
        rw [← hopened]
        exact Buffer.close_of_opened hopened
      refine ⟨true, ?_⟩
      rw [closePath_of_lines hactive, hopened, ledBack_nil, hsame, hactive, h.justClosed]
      rfl
  | some .curves =>
      have hopened := h.curves hactive
      refine ⟨true, ?_⟩
      rw [closePath_of_curves hactive, Buffer.close_of_opened hopened, hopened, hactive,
        h.justClosed]
      rfl
  | some .rectangle =>
      have hopened := h.rectangles hactive
      refine ⟨true, ?_⟩
      rw [closePath_of_rectangle hactive, Buffer.close_of_opened hopened, hopened, hactive,
        h.justClosed]
      rfl

end Clipped

/-- The steps add nothing, or they begin a subpath of their own: by a point, or by a rectangle
while no polyline and no chain of curves is open. -/
def BeginsAnew (path : Path K) (steps : List (Construction K)) : Prop :=
  match steps.find? Construction.adds with
  | none => True
  | some (.moveTo _) => True
  | some (.rectangle ..) => path.lines.opened = [] ∧ path.curves.opened = []
  | some _ => False

theorem settles_moveTo_resumed (before : Path K) (p : Point K) :
    (before.moveTo p).Settles (before.resumed ((empty : Path K).moveTo p)) := by
  refine Or.inr ⟨nofun, ?_⟩
  simp [moveTo, resumed, Buffer.behind, Buffer.empty, empty, Buffer.close_eq]

section Scalar

variable [Scalar K] {steps : List (Construction K)}

theorem rectangle_resumed {before : Path K} (hlines : before.lines.opened = [])
    (hcurves : before.curves.opened = []) (origin extent : Point K) :
    before.resumed ((empty : Path K).rectangle origin extent) =
      before.rectangle origin extent := by
  obtain ⟨⟨openedLines, closedLines⟩, ⟨openedCurves, closedCurves⟩, _, _, _, _, _, _⟩ := before
  obtain rfl : openedLines = [] := hlines
  obtain rfl : openedCurves = [] := hcurves
  simp [rectangle, resumed, Buffer.behind, Buffer.empty, empty, Buffer.close_eq, Buffer.opened?]

/-- After a clip, steps that begin anew build the new path with what was kept in front, unless
they add nothing at all. -/
theorem Clipped.run_cases {path : Path K} (h : path.Clipped) (hsteps : path.BeginsAnew steps) :
    (∃ current isClosed, path.run steps = { path with current := current, isClosed := isClosed } ∧
        (empty : Path K).run steps = empty) ∨
      (path.run steps).Settles (path.resumed ((empty : Path K).run steps)) := by
  induction steps generalizing path with
  | nil => exact Or.inl ⟨path.current, path.isClosed, rfl, rfl⟩
  | cons s steps ih =>
      rw [run_cons, run_cons]
      cases s with
      | moveTo p =>
          refine Or.inr ?_
          rw [← resumed_run path (wellFormed_empty.step _)]
          exact (settles_moveTo_resumed path p).run steps
      | rectangle origin extent =>
          have hsame := rectangle_resumed hsteps.1 hsteps.2 origin extent
          refine Or.inr ?_
          rw [← resumed_run path (wellFormed_empty.step _)]
          exact Settles.run (Or.inl hsame) steps
      | closePath =>
          obtain ⟨isClosed, hclose⟩ := h.closePath_eq
          rw [show path.step .closePath = _ from hclose]
          exact ih ⟨h.justClosed, h.lines, h.curves, h.rectangles⟩ hsteps
      | clip =>
          rw [show path.step .clip = path from h.clip_eq]
          exact ih h hsteps
      | lineTo | curveTo | curveFromCurrent | curveIntoStop => exact hsteps.elim

/-- After a clip, a painting operator is handed **what was kept of the active kind** and then what
was built since. -/
theorem Clipped.handed_run {path : Path K} (h : path.Clipped) (hsteps : path.BeginsAnew steps) :
    (path.run steps).handed =
      path.kept (path.run steps).active ++ ((empty : Path K).run steps).handed := by
  rcases h.run_cases hsteps with ⟨current, isClosed, hrun, hempty⟩ | hsettles
  · have hheld : ({ path with current := current, isClosed := isClosed } : Path K).handed =
        path.kept path.active := by
      rw [handed_eq]
      dsimp only
      cases hactive : path.active with
      | none => rfl
      | some kind =>
          have hkept : (path.held kind).subpaths = path.kept (some kind) := by
            rw [h.held_eq hactive]
            exact List.append_nil _
          exact hkept
    rw [hrun, hempty, hheld]
    exact (List.append_nil _).symm
  · have hhanded : (path.run steps).handed = (path.resumed ((empty : Path K).run steps)).handed :=
      congrArg (Option.elim · [] PendingPath.subpaths) hsettles.pending?_eq.symm
    have hactive : ((empty : Path K).run steps).active = (path.run steps).active :=
      hsettles.active_eq
    rw [hhanded, handed_eq, handed_eq, ← hactive]
    dsimp only [resumed]
    cases ((empty : Path K).run steps).active with
    | none => rfl
    | some kind =>
        refine (congrArg PendingPath.subpaths (held_resumed path _ kind)).trans ?_
        exact List.append_assoc ..

/-- It is handed **the same as without what was kept** exactly if nothing of the active kind was
kept. -/
theorem Clipped.pending?_run_iff {path : Path K} (h : path.Clipped)
    (hsteps : path.BeginsAnew steps) :
    (path.run steps).pending? = ((empty : Path K).run steps).pending? ↔
      path.kept (path.run steps).active = [] := by
  constructor
  · intro hsame
    have hhanded := h.handed_run hsteps
    rw [handed, hsame] at hhanded
    exact List.self_eq_append_left.1 hhanded
  · intro hkept
    rcases h.run_cases hsteps with ⟨current, isClosed, hrun, hempty⟩ | hsettles
    · rw [hrun] at hkept ⊢
      rw [hempty]
      unfold pending?
      dsimp only at hkept ⊢
      cases hactive : path.active with
      | none => rfl
      | some kind =>
          have hheld : path.held kind = ⟨kind, [], none⟩ := by
            rw [h.held_eq hactive, ← hactive, hkept]
          exact congrArg (fun p => (some p).filter fun p => !PendingPath.isEmpty p) hheld
    · rw [← hsettles.active_eq, active_resumed] at hkept
      rw [← hsettles.pending?_eq]
      refine pending?_congr rfl fun kind hactive => ?_
      rw [held_resumed, ← hactive, hkept]
      rfl

end Scalar

end Path

end Artwork
