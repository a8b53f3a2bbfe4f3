import Artwork.Path

/-!
**What holds of every path that can be built.**

A path is built by construction steps from the empty one, and painting it or giving it up makes it
empty again.  The three buffers share one current point, which is the end of the open subpath only
in the buffer of the *active* kind.  The open subpaths of the other kinds stay where they were left.

Main definitions:

* `Path.run` — a path after construction steps;
* `Path.LinesMeet`, `Path.CurvesMeet` — an open subpath ends at the current point;
* `Path.WellFormed` — **what every step keeps**.

Main results:

* `Path.WellFormed.step`, `Path.wellFormed_run` — every path that can be built is well formed.
-/

set_option relaxedAutoImplicit false
set_option autoImplicit false

namespace Artwork

namespace Buffer

variable {α : Type}

/-- Closing leaves nothing open, and the subpath that was open is the last one closed. -/
theorem close_eq (b : Buffer α) : b.close = ⟨[], b.closed ++ b.opened?.toList⟩ := by
  obtain ⟨opened, closed⟩ := b
  cases opened with
  | nil => exact congrArg (Buffer.mk []) (List.append_nil closed).symm
  | cons a opened => rfl

theorem opened_close (b : Buffer α) : b.close.opened = [] := by
  rw [close_eq]

@[simp] theorem opened?_close (b : Buffer α) : b.close.opened? = none := by
  rw [close_eq]
  rfl

theorem opened_eq_nil_of_opened? {b : Buffer α} (h : b.opened? = none) : b.opened = [] := by
  unfold opened? at h
  split at h
  · next hempty => exact List.isEmpty_iff.1 hempty
  · cases h

theorem closed_close_ne_nil {b : Buffer α} (h : (!b.opened.isEmpty) = true) :
    b.close.closed ≠ [] := by
  rw [close, if_neg (by simpa using h)]
  exact List.append_ne_nil_of_right_ne_nil _ (List.cons_ne_nil _ _)

end Buffer

namespace Path

variable {K : Type}

/-! ### Runs of steps -/

section Run

variable [Scalar K]

/-- The path after a **sequence of construction steps**. -/
def run (path : Path K) (steps : List (Construction K)) : Path K :=
  steps.foldl step path

@[simp] theorem run_nil (path : Path K) : path.run [] = path := rfl

@[simp] theorem run_cons (path : Path K) (s : Construction K) (steps : List (Construction K)) :
    path.run (s :: steps) = (path.step s).run steps := rfl

theorem run_append (path : Path K) (steps later : List (Construction K)) :
    path.run (steps ++ later) = (path.run steps).run later :=
  List.foldl_append ..

/-- What each of the steps keeps is kept by all of them. -/
theorem run_induction {P : Path K → Prop} {steps : List (Construction K)}
    (hstep : ∀ c ∈ steps, ∀ path, P path → P (path.step c)) {path : Path K} (h : P path) :
    P (path.run steps) := by
  induction steps generalizing path with
  | nil => exact h
  | cons c steps ih =>
      obtain ⟨hc, hsteps⟩ := List.forall_mem_cons.1 hstep
      exact ih hsteps (hc path h)

end Run

/-! ### Closing and clipping, by the active kind -/

section Kinds

variable {path : Path K}

theorem closePath_of_none [Scalar K] (h : path.active = none) :
    path.closePath = { path with current := path.start.or path.current, justClosed := false } := by
  simp only [closePath, h]

theorem closePath_of_lines [Scalar K] (h : path.active = some .lines) :
    path.closePath =
      { path with
        lines := ({ path.lines with opened := ledBack path.start path.lines.opened }).close
        current := path.start.or path.current
        isClosed := true
        justClosed := !(ledBack path.start path.lines.opened).isEmpty } := by
  simp only [closePath, h]

theorem closePath_of_curves [Scalar K] (h : path.active = some .curves) :
    path.closePath =
      { path with
        curves := path.curves.close
        current := path.start.or path.current
        isClosed := true
        justClosed := !path.curves.opened.isEmpty } := by
  simp only [closePath, h]

theorem closePath_of_rectangle [Scalar K] (h : path.active = some .rectangle) :
    path.closePath =
      { path with
        rectangles := path.rectangles.close
        current := path.start.or path.current
        isClosed := true
        justClosed := !path.rectangles.opened.isEmpty } := by
  simp only [closePath, h]

theorem clip_of_none (h : path.active = none) : path.clip = { path with justClosed := false } := by
  simp only [clip, h]

theorem clip_of_lines (h : path.active = some .lines) :
    path.clip = { path with lines := path.lines.drop path.justClosed, justClosed := false } := by
  simp only [clip, h]

theorem clip_of_curves (h : path.active = some .curves) :
    path.clip = { path with curves := path.curves.drop path.justClosed, justClosed := false } := by
  simp only [clip, h]

theorem clip_of_rectangle (h : path.active = some .rectangle) :
    path.clip =
      { path with rectangles := path.rectangles.drop path.justClosed, justClosed := false } := by
  simp only [clip, h]

end Kinds

/-! ### The invariant -/

/-- The open polyline, if there is one, ends at the current point. -/
def LinesMeet (path : Path K) : Prop :=
  ∀ last, path.lines.opened.getLast? = some last → path.current = some last

/-- The open chain of curves, if there is one, ends at the current point. -/
def CurvesMeet (path : Path K) : Prop :=
  ∀ last, path.curves.opened.getLast? = some last → path.current = some last.stop

theorem linesMeet_of_opened {path : Path K} (h : path.lines.opened = []) : path.LinesMeet := by
  intro last hlast
  rw [h] at hlast
  cases hlast

theorem curvesMeet_of_opened {path : Path K} (h : path.curves.opened = []) : path.CurvesMeet := by
  intro last hlast
  rw [h] at hlast
  cases hlast

/-- **What every step keeps.** -/
structure WellFormed (path : Path K) : Prop where
  /-- Without an active kind nothing has been done. -/
  eq_empty : path.active = none → path = .empty
  /-- With an active kind there is a current point. -/
  isSome_current : path.active ≠ none → path.current.isSome = true
  /-- The open subpath of the active kind ends at the current point. -/
  linesMeet : path.active = some .lines → path.LinesMeet
  curvesMeet : path.active = some .curves → path.CurvesMeet
  /-- What was just closed is of the active kind, and nothing of this kind is open. -/
  exists_closed : path.justClosed = true → ∃ kind, path.active = some kind ∧
    (path.held kind).closed ≠ [] ∧ (path.held kind).opened = none

theorem wellFormed_empty : (empty : Path K).WellFormed where
  eq_empty _ := rfl
  isSome_current h := absurd rfl h
  linesMeet h := nomatch h
  curvesMeet h := nomatch h
  exists_closed h := nomatch h

namespace WellFormed

variable {path : Path K}

theorem moveTo (p : Point K) : (path.moveTo p).WellFormed where
  eq_empty h := nomatch h
  isSome_current _ := rfl
  linesMeet _ _ hlast := hlast
  curvesMeet h := nomatch h
  exists_closed h := nomatch h

theorem lineTo (p : Point K) : (path.lineTo p).WellFormed where
  eq_empty h := nomatch h
  isSome_current _ := rfl
  linesMeet _ _ hlast := List.getLast?_concat.symm.trans hlast
  curvesMeet h := nomatch h
  exists_closed h := nomatch h

theorem curveTo (h : path.WellFormed) (c₁ c₂ stop : Point K) :
    (path.curveTo c₁ c₂ stop).WellFormed := by
  unfold Path.curveTo
  split
  · exact h
  · next p _ =>
      exact
        { eq_empty := nofun
          isSome_current := fun _ => rfl
          linesMeet := nofun
          curvesMeet := fun _ last hlast => by
            have hpushed : some (⟨p, c₁, c₂, stop⟩ : Segment K) = some last :=
              List.getLast?_concat.symm.trans hlast
            exact congrArg (Option.map Segment.stop) hpushed
          exists_closed := nofun }

theorem curveFromCurrent (h : path.WellFormed) (c₂ stop : Point K) :
    (path.curveFromCurrent c₂ stop).WellFormed := by
  unfold Path.curveFromCurrent
  split
  · exact h
  · exact h.curveTo _ c₂ stop

theorem rectangle [Scalar K] (origin extent : Point K) :
    (path.rectangle origin extent).WellFormed where
  eq_empty h := nomatch h
  isSome_current _ := rfl
  linesMeet h := nomatch h
  curvesMeet h := nomatch h
  exists_closed h := nomatch h

/-- A path with a current point and with nothing open of the active kind is well formed, if there is a
closed subpath wherever one was just closed. -/
theorem of_opened_eq_none {kind : SubpathKind} (hactive : path.active = some kind)
    (hcurrent : path.current.isSome = true) (hopened : (path.held kind).opened = none)
    (hclosed : path.justClosed = true → (path.held kind).closed ≠ []) : path.WellFormed where
  eq_empty h := by rw [hactive] at h; cases h
  isSome_current _ := hcurrent
  linesMeet h := by
    rw [hactive, Option.some.injEq] at h
    rw [h] at hopened
    exact linesMeet_of_opened (Buffer.opened_eq_nil_of_opened? (Option.map_eq_none_iff.1 hopened))
  curvesMeet h := by
    rw [hactive, Option.some.injEq] at h
    rw [h] at hopened
    exact curvesMeet_of_opened (Buffer.opened_eq_nil_of_opened? (Option.map_eq_none_iff.1 hopened))
  exists_closed h := ⟨kind, hactive, hclosed h, hopened⟩

theorem closePath [Scalar K] (h : path.WellFormed) : path.closePath.WellFormed := by
  have hcurrent : path.active ≠ none → (path.start.or path.current).isSome = true := by
    intro hactive
    cases path.start with
    | none => exact h.isSome_current hactive
    | some s => rfl
  unfold Path.closePath
  dsimp only
  split
  · next hactive =>
      rw [h.eq_empty hactive]
      exact wellFormed_empty
  all_goals
    next hactive =>
      refine of_opened_eq_none hactive (hcurrent (by rw [hactive]; nofun))
        (by rw [held, Buffer.opened?_close]; rfl) fun hjust => ?_
      exact mt List.map_eq_nil_iff.1 (Buffer.closed_close_ne_nil hjust)

theorem clip (h : path.WellFormed) : path.clip.WellFormed := by
  unfold Path.clip
  dsimp only
  split
  · next hactive =>
      rw [h.eq_empty hactive]
      exact wellFormed_empty
  all_goals
    next hactive =>
      exact of_opened_eq_none hactive (h.isSome_current (by rw [hactive]; nofun)) rfl nofun

/-- **Every step** keeps a path well formed. -/
theorem step [Scalar K] (h : path.WellFormed) (s : Construction K) : (path.step s).WellFormed := by
  cases s with
  | moveTo p => exact moveTo p
  | lineTo p => exact lineTo p
  | curveTo c₁ c₂ stop => exact h.curveTo c₁ c₂ stop
  | curveFromCurrent c₂ stop => exact h.curveFromCurrent c₂ stop
  | curveIntoStop c₁ stop => exact h.curveTo c₁ stop stop
  | rectangle origin extent => exact rectangle origin extent
  | closePath => exact h.closePath
  | clip => exact h.clip

theorem run [Scalar K] (h : path.WellFormed) (steps : List (Construction K)) :
    (path.run steps).WellFormed := by
  induction steps generalizing path with
  | nil => exact h
  | cons s steps ih => exact ih (h.step s)

end WellFormed

/-- **Every path that can be built** is well formed. -/
theorem wellFormed_run [Scalar K] (steps : List (Construction K)) :
    ((empty : Path K).run steps).WellFormed :=
  wellFormed_empty.run steps

end Path

end Artwork
