import Artwork.Proofs.Path.Closing

/-!
**What is handed over, and what is not.**

Every step adds the subpath that it closes behind those closed before, and only a clip takes one
back: the one that the step right before it has closed.  So the subpaths in a buffer stand in the
order in which they were closed, and none of them is empty.  A painting operator is handed those of
the active kind.  With those of the other kinds they are all that was drawn.

Main definitions:

* `Path.closes`, `Path.closings` — what a step closes, and **what steps have closed in the end**;
* `Path.openSubpath` — the open subpath of a kind, which may be empty;
* `Path.stored` — all subpaths in the buffers.

Main results:

* `Path.closed_step`, `Path.closed_run` — the closed subpaths are those of the steps, in order;
* `Path.pending?_run_iff` — what is handed over;
* `Path.length_handed_add_leftOver` — it is **all but what is left over**.
-/

set_option relaxedAutoImplicit false
set_option autoImplicit false

namespace Artwork

variable {K : Type}

theorem Subpath.isEmpty_ledBack [Scalar K] (start : Option (Point K)) (s : Subpath K) :
    (s.ledBack start).isEmpty = s.isEmpty := by
  cases s with
  | lines vertices => exact Path.isEmpty_ledBack start vertices
  | curves chain => rfl
  | rectangle corners => rfl

theorem Buffer.isSome_opened? {α : Type} (b : Buffer α) : b.opened?.isSome = !b.opened.isEmpty := by
  unfold opened?
  cases b.opened.isEmpty <;> rfl

theorem Buffer.map_closed_drop {α β : Type} (f : List α → β) (b : Buffer α) (lastClosed : Bool) :
    (b.drop lastClosed).closed.map f =
      if lastClosed = true then (b.closed.map f).dropLast else b.closed.map f := by
  cases lastClosed with
  | false => rfl
  | true => exact List.map_dropLast

theorem PendingPath.not_isEmpty_iff {pending : PendingPath K} :
    (!pending.isEmpty) = true ↔ pending.closed ≠ [] ∨ pending.opened ≠ none := by
  obtain ⟨kind, closed, opened⟩ := pending
  cases closed <;> cases opened <;> simp [isEmpty]

namespace Path

/-! ### The open subpaths -/

/-- The open subpath of a kind, which may be empty. -/
def openSubpath (path : Path K) : SubpathKind → Subpath K
  | .lines => .lines path.lines.opened
  | .curves => .curves path.curves.opened
  | .rectangle => .rectangle path.rectangles.opened

/-- The open subpath is the one in the buffer, and counts only if it is not empty. -/
theorem opened_held (path : Path K) (kind : SubpathKind) :
    (path.held kind).opened = (some (path.openSubpath kind)).filter (!·.isEmpty) := by
  cases kind with
  | lines =>
      unfold held openSubpath Buffer.opened?
      cases path.lines.opened <;> rfl
  | curves =>
      unfold held openSubpath Buffer.opened?
      cases path.curves.opened <;> rfl
  | rectangle =>
      unfold held openSubpath Buffer.opened?
      cases path.rectangles.opened <;> rfl

theorem isEmpty_of_opened_held {path : Path K} {kind : SubpathKind} {s : Subpath K}
    (h : (path.held kind).opened = some s) : s.isEmpty = false := by
  rw [opened_held, Option.filter_eq_some_iff] at h
  simpa using h.2

/-! ### What steps close -/

section Steps

variable [Scalar K]

/-- The subpath of a kind that a step **closes**: closing takes the one of the active kind, and a
rectangle the one before it. -/
def closes (kind : SubpathKind) (path : Path K) : Construction K → Option (Subpath K)
  | .closePath =>
    if path.active = some kind then (path.held kind).opened.map (Subpath.ledBack path.start)
    else none
  | .rectangle .. => if kind = .rectangle then (path.held kind).opened else none
  | _ => none

/-- The subpaths of a kind that steps have closed, **in the order of closing**.  A clip takes back
what was closed right before it. -/
def closings (kind : SubpathKind) : Path K → List (Construction K) → List (Subpath K)
  | _, [] => []
  | path, .closePath :: .clip :: steps => closings kind (path.run [.closePath, .clip]) steps
  | path, c :: steps => (path.closes kind c).toList ++ closings kind (path.step c) steps

variable (kind : SubpathKind) (path : Path K)

theorem isEmpty_of_closes {c : Construction K} {s : Subpath K} (h : path.closes kind c = some s) :
    s.isEmpty = false := by
  cases c with
  | closePath =>
      simp only [closes] at h
      split at h
      · obtain ⟨s', hs', rfl⟩ := Option.map_eq_some_iff.1 h
        rw [Subpath.isEmpty_ledBack]
        exact isEmpty_of_opened_held hs'
      · cases h
  | rectangle origin extent =>
      simp only [closes] at h
      split at h
      · exact isEmpty_of_opened_held h
      · cases h
  | _ => cases h

/-- No step closes a subpath with nothing in it. -/
theorem isEmpty_of_mem_closings {steps : List (Construction K)} :
    ∀ s ∈ path.closings kind steps, s.isEmpty = false := by
  induction path, steps using closings.induct with
  | case1 path => nofun
  | case2 path steps ih =>
      rw [closings]
      exact ih
  | case3 path c steps hne ih =>
      intro s hs
      rw [closings, List.mem_append, Option.mem_toList] at hs
      rcases hs with hs | hs
      · exact isEmpty_of_closes kind path hs
      · exact ih s hs
      · exact hne

/-- Closing does nothing to the subpaths of the other kinds. -/
theorem held_closePath_of_ne (h : path.active ≠ some kind) :
    path.closePath.held kind = path.held kind := by
  unfold closePath
  dsimp only
  split
  · rfl
  · next hactive => cases kind <;> first | exact absurd hactive h | rfl
  · next hactive => cases kind <;> first | exact absurd hactive h | rfl
  · next hactive => cases kind <;> first | exact absurd hactive h | rfl

theorem closed_closePath :
    (path.closePath.held kind).closed =
      (path.held kind).closed ++ (path.closes kind .closePath).toList := by
  simp only [closes]
  split
  · next hactive => rw [held_closePath hactive]
  · next hactive =>
      rw [held_closePath_of_ne kind path hactive]
      exact (List.append_nil _).symm

omit [Scalar K] in
theorem closed_curveTo (c₁ c₂ stop : Point K) :
    ((path.curveTo c₁ c₂ stop).held kind).closed = (path.held kind).closed := by
  unfold curveTo
  split
  · rfl
  · cases kind <;> rfl

theorem closed_rectangle (origin extent : Point K) :
    ((path.rectangle origin extent).held kind).closed =
      (path.held kind).closed ++ (path.closes kind (.rectangle origin extent)).toList := by
  cases kind with
  | lines | curves => exact (List.append_nil _).symm
  | rectangle =>
      change (path.rectangles.close.closed).map Subpath.rectangle = _
      rw [Buffer.close_eq, List.map_append]
      simp only [closes, held]
      cases path.rectangles.opened? <;> rfl

omit [Scalar K] in
/-- A clip takes back the last closed subpath of the active kind, if something was just closed, and no
other one. -/
theorem closed_clip :
    (path.clip.held kind).closed =
      if path.active = some kind ∧ path.justClosed = true then (path.held kind).closed.dropLast
      else (path.held kind).closed := by
  by_cases hactive : path.active = some kind
  · simp only [hactive, true_and]
    cases kind with
    | lines =>
        rw [clip_of_lines hactive]
        exact Buffer.map_closed_drop ..
    | curves =>
        rw [clip_of_curves hactive]
        exact Buffer.map_closed_drop ..
    | rectangle =>
        rw [clip_of_rectangle hactive]
        exact Buffer.map_closed_drop ..
  · rw [if_neg fun h => hactive h.1]
    unfold clip
    dsimp only
    split
    · rfl
    · next h => cases kind <;> first | exact absurd h hactive | rfl
    · next h => cases kind <;> first | exact absurd h hactive | rfl
    · next h => cases kind <;> first | exact absurd h hactive | rfl

/-- **What is closed after a step**: what the step closes comes last. -/
theorem closed_step {c : Construction K} (h : c = .clip → path.justClosed = false) :
    ((path.step c).held kind).closed =
      (path.held kind).closed ++ (path.closes kind c).toList := by
  cases c with
  | moveTo | lineTo => cases kind <;> exact (List.append_nil _).symm
  | curveTo c₁ c₂ stop => exact (closed_curveTo kind path c₁ c₂ stop).trans (List.append_nil _).symm
  | curveIntoStop c₁ stop =>
      exact (closed_curveTo kind path c₁ stop stop).trans (List.append_nil _).symm
  | curveFromCurrent c₂ stop =>
      refine Eq.trans ?_ (List.append_nil _).symm
      simp only [step, curveFromCurrent]
      split
      · rfl
      · exact closed_curveTo kind path _ c₂ stop
  | rectangle origin extent => exact closed_rectangle kind path origin extent
  | closePath => exact closed_closePath kind path
  | clip =>
      refine Eq.trans ?_ (List.append_nil _).symm
      change (path.clip.held kind).closed = _
      rw [closed_clip, if_neg fun hjust => Bool.false_ne_true ((h rfl).symm.trans hjust.2)]

theorem justClosed_closePath (h : path.active = some kind) :
    path.closePath.justClosed = (path.held kind).opened.isSome := by
  cases kind with
  | lines =>
      rw [closePath_of_lines h, isEmpty_ledBack, held, Option.isSome_map, Buffer.isSome_opened?]
  | curves => rw [closePath_of_curves h, held, Option.isSome_map, Buffer.isSome_opened?]
  | rectangle => rw [closePath_of_rectangle h, held, Option.isSome_map, Buffer.isSome_opened?]

/-- A clip takes back what was closed right before it. -/
theorem closed_closePath_clip :
    ((path.run [.closePath, .clip]).held kind).closed = (path.held kind).closed := by
  change (path.closePath.clip.held kind).closed = _
  rw [closed_clip, active_closePath]
  by_cases hactive : path.active = some kind
  · rw [justClosed_closePath kind path hactive, held_closePath hactive]
    cases (path.held kind).opened with
    | none => simp
    | some s => simp [hactive]
  · rw [if_neg fun h => hactive h.1, held_closePath_of_ne kind path hactive]

omit [Scalar K] in
/-- Without a current point nothing was just closed. -/
theorem WellFormed.justClosed_of_current {path : Path K} (h : path.WellFormed)
    (hcurrent : path.current = none) : path.justClosed = false := by
  rw [Bool.eq_false_iff]
  intro hjust
  obtain ⟨kind, hactive, -⟩ := h.exists_closed hjust
  have hsome := h.isSome_current (by rw [hactive]; nofun)
  rw [hcurrent] at hsome
  cases hsome

/-- Only closing leaves something behind that was just closed. -/
theorem justClosed_step {path : Path K} (h : path.WellFormed) {c : Construction K}
    (hc : c ≠ .closePath) : (path.step c).justClosed = false := by
  -- a curve that is not drawn, because there is no current point, leaves the path as it is
  have hcurve : ∀ c₁ c₂ stop, (path.curveTo c₁ c₂ stop).justClosed = false := by
    intro c₁ c₂ stop
    unfold curveTo
    split
    · next hcurrent => exact h.justClosed_of_current hcurrent
    · rfl
  cases c with
  | moveTo | lineTo | rectangle => rfl
  | curveTo c₁ c₂ stop => exact hcurve c₁ c₂ stop
  | curveIntoStop c₁ stop => exact hcurve c₁ stop stop
  | curveFromCurrent c₂ stop =>
      simp only [step, curveFromCurrent]
      split
      · next hcurrent => exact h.justClosed_of_current hcurrent
      · exact hcurve _ c₂ stop
  | closePath => exact absurd rfl hc
  | clip => exact (clipped_clip path).justClosed

/-- **What is closed after steps**: what they have closed, in order. -/
theorem closed_run {path : Path K} (h : path.WellFormed) {steps : List (Construction K)}
    (hclip : path.justClosed = true → steps.head? ≠ some .clip) :
    ((path.run steps).held kind).closed =
      (path.held kind).closed ++ path.closings kind steps := by
  induction path, steps using closings.induct with
  | case1 path => exact (List.append_nil _).symm
  | case2 path steps ih =>
      -- the clip and the closing before it cancel out
      have hfalse : (path.run [.closePath, .clip]).justClosed = false :=
        (clipped_clip path.closePath).justClosed
      rw [closings, ← closed_closePath_clip kind path]
      exact ih (h.run _) fun hjust => by rw [hfalse] at hjust; cases hjust
  | case3 path c steps hne ih =>
      have hjust : c = .clip → path.justClosed = false := by
        rintro rfl
        exact Bool.eq_false_iff.2 fun hjust => hclip hjust rfl
      rw [closings, ← List.append_assoc, ← closed_step kind path hjust, run_cons]
      · refine ih (h.step c) fun hstep => ?_
        cases steps with
        | nil => nofun
        | cons next steps =>
            -- a clip right after a closing is the case before
            rintro ⟨⟩
            refine hne steps ?_ rfl
            by_contra hc
            rw [justClosed_step h hc] at hstep
            cases hstep
      · exact hne

/-- In a path that can be built, the closed subpaths are those that the steps have closed. -/
theorem closed_run_empty (steps : List (Construction K)) :
    (((empty : Path K).run steps).held kind).closed = (empty : Path K).closings kind steps := by
  rw [closed_run kind wellFormed_empty nofun]
  cases kind <;> rfl

end Steps

/-! ### What is handed over -/

theorem pending?_eq_some_iff {path : Path K} {pending : PendingPath K} :
    path.pending? = some pending ↔
      ∃ kind, path.active = some kind ∧ pending = path.held kind ∧
        (pending.closed ≠ [] ∨ pending.opened ≠ none) := by
  unfold pending?
  rw [Option.filter_eq_some_iff, Option.map_eq_some_iff, PendingPath.not_isEmpty_iff]
  constructor
  · rintro ⟨⟨kind, hactive, rfl⟩, hne⟩
    exact ⟨kind, hactive, rfl, hne⟩
  · rintro ⟨kind, hactive, rfl, hne⟩
    exact ⟨⟨kind, hactive, rfl⟩, hne⟩

/-- The kinds that are not active. -/
theorem inactive_eq (active : Option SubpathKind) :
    [SubpathKind.lines, .curves, .rectangle].filter (active != some ·) =
      match active with
      | none => [.lines, .curves, .rectangle]
      | some .lines => [.curves, .rectangle]
      | some .curves => [.lines, .rectangle]
      | some .rectangle => [.lines, .curves] := by
  match active with
  | none | some .lines | some .curves | some .rectangle => rfl

/-- All subpaths in the three buffers.  The open one of each kind comes last and may be empty. -/
def stored (path : Path K) : List (Subpath K) :=
  (path.lines.closed ++ [path.lines.opened]).map .lines ++
    (path.curves.closed ++ [path.curves.opened]).map .curves ++
      (path.rectangles.closed ++ [path.rectangles.opened]).map .rectangle

theorem stored_eq (path : Path K) :
    path.stored = [SubpathKind.lines, .curves, .rectangle].flatMap fun kind =>
      (path.held kind).closed ++ [path.openSubpath kind] := by
  simp [stored, held, openSubpath]

section Runs

variable [Scalar K] (steps : List (Construction K))

/-- **What is handed over**: the subpaths of the active kind that the steps have closed, in order,
and the open one if it is not empty. -/
theorem pending?_run_iff {pending : PendingPath K} :
    ((empty : Path K).run steps).pending? = some pending ↔
      ∃ kind, ((empty : Path K).run steps).active = some kind ∧
        pending = ⟨kind, (empty : Path K).closings kind steps,
          (some (((empty : Path K).run steps).openSubpath kind)).filter (!·.isEmpty)⟩ ∧
        (pending.closed ≠ [] ∨ pending.opened ≠ none) := by
  have hheld : ∀ kind, ((empty : Path K).run steps).held kind =
      ⟨kind, (empty : Path K).closings kind steps,
        (some (((empty : Path K).run steps).openSubpath kind)).filter (!·.isEmpty)⟩ := by
    intro kind
    rw [← opened_held, ← closed_run_empty]
    cases kind <;> rfl
  simp only [pending?_eq_some_iff, hheld]

/-- The subpaths of a kind are the closed ones, and the open one if it is not empty. -/
theorem subpaths_held_run (kind : SubpathKind) :
    (((empty : Path K).run steps).held kind).subpaths =
      ((((empty : Path K).run steps).held kind).closed ++
        [((empty : Path K).run steps).openSubpath kind]).filter (!·.isEmpty) := by
  have hclosed : ∀ s ∈ (empty : Path K).closings kind steps, (!s.isEmpty) = true := by
    intro s hs
    rw [isEmpty_of_mem_closings kind empty s hs]
    rfl
  rw [PendingPath.subpaths, closed_run_empty, opened_held, List.filter_append,
    List.filter_eq_self.2 hclosed, Option.filter_some, List.filter_singleton]
  cases (((empty : Path K).run steps).openSubpath kind).isEmpty <;> rfl

/-- What is handed over is **all but what is left over**. -/
theorem length_handed_add_leftOver :
    ((empty : Path K).run steps).handed.length + ((empty : Path K).run steps).leftOver =
      ((empty : Path K).run steps).stored.countP (!·.isEmpty) := by
  have hsubpaths := subpaths_held_run steps
  generalize (empty : Path K).run steps = path at hsubpaths ⊢
  rw [stored_eq, List.countP_eq_length_filter, List.filter_flatMap, handed_eq, leftOver]
  simp only [← hsubpaths, inactive_eq]
  match path.active with
  | none => simp
  | some .lines => simp
  | some .curves => simp; omega
  | some .rectangle => simp; omega

end Runs

end Path

end Artwork
