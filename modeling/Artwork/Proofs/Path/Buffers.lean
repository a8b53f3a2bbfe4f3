import Artwork.Import.Context
import Artwork.Proofs.Path.Handover

/-!
**What the buffers hold at any time.**

Construction steps build a path, and the operators that paint it or give it up leave an empty one
behind.  Whatever operators have come, no closed subpath is empty, every rectangle has its five
corners, and the open subpath of the active kind ends at the current point.  A path also knows
whether the latest operator that concerns it was a closing that has moved a subpath.  So a clip takes
exactly that subpath and the open one of the active kind.

Main definitions:

* `Path.apply`, `Path.follow` — what operators do to a path;
* `Subpath.endpoint?`, `Subpath.HasCorners` — where drawing a subpath ends, and the shape of a
  rectangle;
* `Path.Represented` — **what holds of the buffers at any time**;
* `Path.movedLast?` — the subpath that the latest operator of the path has moved.

Main results:

* `Path.represented_run` — every path that can be built is represented so;
* `Path.closed_held_follow`, `Path.opened_held_clip` — what a clip takes;
* `Path.representation_follow` — the buffers **after any operators**, and after a clip.
-/

set_option relaxedAutoImplicit false
set_option autoImplicit false

namespace Artwork

variable {K : Type}

/-- The operator concerns the path: it builds it, paints it or gives it up. -/
def Operator.usesPath : Operator K → Bool
  | strokeColor _ | fillColor _ | transform .. | save | restore | lineWidth _ => false
  | construct _ | endPath | stroke | closeStroke | fill _ | fillStroke _ | closeFillStroke _ => true

/-- The operator with the operands of a construction step in output coordinates. -/
def Operator.mapped [Scalar K] (s : GraphicsState K) (factor : K) : Operator K → Operator K
  | construct step => construct (step.map s factor)
  | op => op

namespace Subpath

/-- Where drawing a subpath ends: at the last vertex of a polyline, at the last stop point of a
chain, and at the origin of a rectangle. -/
def endpoint? : Subpath K → Option (Point K)
  | lines vertices => vertices.getLast?
  | curves segments => segments.getLast?.map Segment.stop
  | rectangle corners => corners.head?

/-- A rectangle has five corners, the last of which is the first. -/
def HasCorners : Subpath K → Prop
  | rectangle corners => corners.length = 5 ∧ corners.getLast? = corners.head?
  | _ => True

end Subpath

namespace Path

/-! ### Operators -/

section Operators

variable [Scalar K]

/-- What an operator does to a path, its operands being in output coordinates: a construction step
builds it, and an operator that paints it or gives it up leaves it empty. -/
def apply (path : Path K) : Operator K → Path K
  | .construct step => path.step step
  | op => if op.usesPath then .empty else path

/-- The path after operators. -/
def follow (path : Path K) (ops : List (Operator K)) : Path K :=
  ops.foldl apply path

theorem follow_concat (path : Path K) (ops : List (Operator K)) (op : Operator K) :
    path.follow (ops ++ [op]) = (path.follow ops).apply op :=
  List.foldl_concat ..

/-- An operator takes the path of an import to what it makes of this path with its operands in output
coordinates. -/
theorem path_apply (union : ContourUnion Float) (c : Context) (op : Operator Float) :
    (c.apply union op).path = c.path.apply (op.mapped c.graphics.current c.factor) := by
  have hpaint : ∀ (c : Context) (painting : Painting), (c.paint union painting).path = .empty := by
    intro c painting
    rw [Context.paint_eq_match]
    split <;> rfl
  cases op with
  | stroke | closeStroke | fill | fillStroke | closeFillStroke => exact hpaint _ _
  | _ => rfl

theorem apply_of_not_usesPath (path : Path K) {op : Operator K} (h : op.usesPath = false) :
    path.apply op = path := by
  cases op with
  | strokeColor | fillColor | transform | save | restore | lineWidth => rfl
  | _ => cases h

/-- The path after operators is the path after some construction steps. -/
theorem exists_run_follow (ops : List (Operator K)) :
    ∃ steps, (empty : Path K).follow ops = (empty : Path K).run steps := by
  induction ops using List.reverseRecOn with
  | nil => exact ⟨[], rfl⟩
  | append_singleton ops op ih =>
      obtain ⟨steps, hsteps⟩ := ih
      rw [follow_concat, hsteps]
      cases op with
      | construct step => exact ⟨steps ++ [step], (run_append empty steps [step]).symm⟩
      | endPath | stroke | closeStroke | fill | fillStroke | closeFillStroke => exact ⟨[], rfl⟩
      | strokeColor | fillColor | transform | save | restore | lineWidth => exact ⟨steps, rfl⟩

theorem wellFormed_follow (ops : List (Operator K)) :
    ((empty : Path K).follow ops).WellFormed := by
  obtain ⟨steps, hsteps⟩ := exists_run_follow ops
  rw [hsteps]
  exact wellFormed_run steps

end Operators

/-! ### Rectangles -/

/-- Rectangles keep their shape, and an open one that was drawn last begins at the current
point. -/
structure Rectangular (path : Path K) : Prop where
  hasCorners : ∀ corners ∈ path.rectangles.closed ++ path.rectangles.opened?.toList,
    (Subpath.rectangle corners).HasCorners
  current_eq : path.active = some .rectangle →
    ∀ origin, path.rectangles.opened.head? = some origin → path.current = some origin

theorem rectangular_empty : (empty : Path K).Rectangular where
  hasCorners := nofun
  current_eq h := nomatch h

theorem hasCorners_corners [Scalar K] (origin extent : Point K) :
    (Subpath.rectangle (corners origin extent)).HasCorners := ⟨rfl, rfl⟩

end Path

/-- The subpaths in a buffer, the open one last, are the same ones after closing. -/
theorem Buffer.subpaths_close {α : Type} (b : Buffer α) :
    b.close.closed ++ b.close.opened?.toList = b.closed ++ b.opened?.toList := by
  rw [Buffer.opened?_close, Buffer.close_eq]
  exact List.append_nil _

namespace Path

namespace Rectangular

variable {path : Path K} (h : path.Rectangular)

include h

/-- A path with the same rectangles is rectangular too, if rectangles are not its active kind. -/
theorem of_eq {path' : Path K} (heq : path'.rectangles = path.rectangles)
    (hactive : path'.active ≠ some .rectangle) : path'.Rectangular where
  hasCorners := by
    rw [heq]
    exact h.hasCorners
  current_eq hrectangle := absurd hrectangle hactive

theorem curveTo (c₁ c₂ stop : Point K) : (path.curveTo c₁ c₂ stop).Rectangular := by
  unfold Path.curveTo
  split
  · exact h
  · exact h.of_eq rfl nofun

theorem curveFromCurrent (c₂ stop : Point K) : (path.curveFromCurrent c₂ stop).Rectangular := by
  unfold Path.curveFromCurrent
  split
  · exact h
  · exact h.curveTo _ c₂ stop

theorem rectangle [Scalar K] (origin extent : Point K) :
    (path.rectangle origin extent).Rectangular where
  hasCorners := by
    intro corners hmem
    have hcorners : corners ∈ path.rectangles.close.closed ++
        [Path.corners origin extent] := hmem
    rw [List.mem_append, List.mem_singleton] at hcorners
    rcases hcorners with hclosed | rfl
    · refine h.hasCorners corners ?_
      rw [← Buffer.subpaths_close]
      exact List.mem_append_left _ hclosed
    · exact hasCorners_corners origin extent
  current_eq := by
    rintro - _ ⟨⟩
    rfl

theorem closePath [Scalar K] : path.closePath.Rectangular := by
  match hactive : path.active with
  | none =>
      rw [closePath_of_none hactive]
      exact h.of_eq rfl (by simp [hactive])
  | some .lines =>
      rw [closePath_of_lines hactive]
      exact h.of_eq rfl (by simp [hactive])
  | some .curves =>
      rw [closePath_of_curves hactive]
      exact h.of_eq rfl (by simp [hactive])
  | some .rectangle =>
      rw [closePath_of_rectangle hactive]
      refine ⟨fun corners hmem => h.hasCorners corners ?_, fun _ origin horigin => ?_⟩
      · rw [← Buffer.subpaths_close]
        exact hmem
      · rw [Buffer.opened_close] at horigin
        cases horigin

theorem clip : path.clip.Rectangular := by
  match hactive : path.active with
  | none =>
      rw [clip_of_none hactive]
      exact h.of_eq rfl (by simp [hactive])
  | some .lines =>
      rw [clip_of_lines hactive]
      exact h.of_eq rfl (by simp [hactive])
  | some .curves =>
      rw [clip_of_curves hactive]
      exact h.of_eq rfl (by simp [hactive])
  | some .rectangle =>
      rw [clip_of_rectangle hactive]
      refine ⟨fun corners hmem => h.hasCorners corners (List.mem_append_left _ ?_), nofun⟩
      have hkept : corners ∈ (path.rectangles.drop path.justClosed).closed := by
        simpa [Buffer.drop, Buffer.opened?] using hmem
      unfold Buffer.drop at hkept
      dsimp only at hkept
      split at hkept
      · exact List.dropLast_subset _ hkept
      · exact hkept

/-- Every step keeps the rectangles in shape. -/
theorem step [Scalar K] (c : Construction K) : (path.step c).Rectangular := by
  cases c with
  | moveTo | lineTo => exact h.of_eq rfl nofun
  | curveTo c₁ c₂ stop => exact h.curveTo c₁ c₂ stop
  | curveFromCurrent c₂ stop => exact h.curveFromCurrent c₂ stop
  | curveIntoStop c₁ stop => exact h.curveTo c₁ stop stop
  | rectangle origin extent => exact h.rectangle origin extent
  | closePath => exact h.closePath
  | clip => exact h.clip

end Rectangular

/-! ### The buffers -/

/-- **What holds of the buffers at any time.** -/
structure Represented (path : Path K) : Prop extends WellFormed path where
  /-- No closed subpath is empty. -/
  isEmpty_closed : ∀ kind, ∀ s ∈ (path.held kind).closed, s.isEmpty = false
  /-- Every rectangle, closed or open, has its corners. -/
  hasCorners : ∀ kind, ∀ s ∈ (path.held kind).subpaths, s.HasCorners
  /-- The current point is where the open subpath of the active kind ends. -/
  current_eq : ∀ kind s, path.active = some kind → (path.held kind).opened = some s →
    path.current = s.endpoint?

/-- Every subpath in a buffer of a rectangular path has its corners. -/
theorem hasCorners_held {path : Path K} (h : path.Rectangular) (kind : SubpathKind) :
    ∀ s ∈ (path.held kind).subpaths, s.HasCorners := by
  intro s hs
  rw [PendingPath.subpaths, List.mem_append, Option.mem_toList] at hs
  cases kind with
  | lines =>
      rcases hs with hs | hs
      · obtain ⟨vertices, -, rfl⟩ := List.mem_map.1 hs
        trivial
      · obtain ⟨vertices, -, rfl⟩ := Option.map_eq_some_iff.1 hs
        trivial
  | curves =>
      rcases hs with hs | hs
      · obtain ⟨segments, -, rfl⟩ := List.mem_map.1 hs
        trivial
      · obtain ⟨segments, -, rfl⟩ := Option.map_eq_some_iff.1 hs
        trivial
  | rectangle =>
      rcases hs with hs | hs
      · obtain ⟨corners, hcorners, rfl⟩ := List.mem_map.1 hs
        exact h.hasCorners corners (List.mem_append_left _ hcorners)
      · obtain ⟨corners, hcorners, rfl⟩ := Option.map_eq_some_iff.1 hs
        exact h.hasCorners corners (List.mem_append_right _ (Option.mem_toList.2 hcorners))

/-- An open subpath that counts is the one in the buffer. -/
theorem eq_openSubpath {path : Path K} {kind : SubpathKind} {s : Subpath K}
    (h : (path.held kind).opened = some s) : s = path.openSubpath kind := by
  rw [opened_held, Option.filter_eq_some_iff] at h
  exact (Option.some.inj h.1).symm

/-- A subpath that is not empty ends somewhere. -/
theorem isSome_endpoint? {s : Subpath K} (h : s.isEmpty = false) : s.endpoint?.isSome = true := by
  cases s with
  | lines vertices | curves vertices | rectangle vertices =>
      cases vertices with
      | nil => cases h
      | cons v vs => simp [Subpath.endpoint?]

theorem endpoint?_openSubpath {path : Path K} (h : path.WellFormed) (hrect : path.Rectangular)
    {kind : SubpathKind} (hactive : path.active = some kind) {p : Point K}
    (hp : (path.openSubpath kind).endpoint? = some p) : path.current = some p := by
  cases kind with
  | lines => exact h.linesMeet hactive p hp
  | curves =>
      obtain ⟨last, hlast, rfl⟩ := Option.map_eq_some_iff.1 hp
      exact h.curvesMeet hactive last hlast
  | rectangle => exact hrect.current_eq hactive p hp

/-- **Every path that can be built** is represented so. -/
theorem represented_run [Scalar K] (steps : List (Construction K)) :
    ((empty : Path K).run steps).Represented := by
  have hwell := wellFormed_run steps
  have hrect : ((empty : Path K).run steps).Rectangular :=
    run_induction (fun c _ _ hpath => hpath.step c) rectangular_empty
  refine ⟨hwell, fun kind s hs => ?_, hasCorners_held hrect, fun kind s hactive hs => ?_⟩
  · rw [closed_run_empty] at hs
    exact isEmpty_of_mem_closings kind empty s hs
  · obtain ⟨p, hp⟩ := Option.isSome_iff_exists.1 (isSome_endpoint? (isEmpty_of_opened_held hs))
    rw [hp]
    rw [eq_openSubpath hs] at hp
    exact endpoint?_openSubpath hwell hrect hactive hp

/-! ### What a clip takes -/

section Clip

variable [Scalar K] (kind : SubpathKind)

/-- The subpath of a kind that the latest operator of the path has moved behind the closed ones,
if this operator is a closing. -/
def movedLast? (ops : List (Operator K)) : Option (Subpath K) :=
  match ops.reverse.dropWhile (!·.usesPath) with
  | .construct .closePath :: early =>
    ((empty : Path K).follow early.reverse).closes kind .closePath
  | _ => none

theorem movedLast?_concat_of_not_usesPath (ops : List (Operator K)) {op : Operator K}
    (h : op.usesPath = false) : movedLast? kind (ops ++ [op]) = movedLast? kind ops := by
  unfold movedLast?
  rw [List.reverse_concat, List.dropWhile_cons_of_pos (by simp [h])]

theorem movedLast?_concat_closePath (ops : List (Operator K)) :
    movedLast? kind (ops ++ [.construct .closePath]) =
      ((empty : Path K).follow ops).closes kind .closePath := by
  unfold movedLast?
  rw [List.reverse_concat, List.dropWhile_cons_of_neg (by simp [Operator.usesPath])]
  exact congrArg (fun ops => ((empty : Path K).follow ops).closes kind .closePath)
    (List.reverse_reverse ops)

theorem movedLast?_concat_of_ne (ops : List (Operator K)) {op : Operator K}
    (h : op.usesPath = true) (hne : op ≠ .construct .closePath) :
    movedLast? kind (ops ++ [op]) = none := by
  unfold movedLast?
  rw [List.reverse_concat, List.dropWhile_cons_of_neg (by simp [h])]
  split
  · next hop => exact absurd (List.cons.inj hop).1 hne
  · rfl

omit [Scalar K] in
/-- A clip does nothing to the subpaths of a kind that is not active. -/
theorem held_clip_of_ne {path : Path K} (h : path.active ≠ some kind) :
    path.clip.held kind = path.held kind := by
  match hactive : path.active with
  | none =>
      rw [clip_of_none hactive]
      cases kind <;> rfl
  | some .lines =>
      rw [clip_of_lines hactive]
      cases kind <;> first | exact absurd hactive h | rfl
  | some .curves =>
      rw [clip_of_curves hactive]
      cases kind <;> first | exact absurd hactive h | rfl
  | some .rectangle =>
      rw [clip_of_rectangle hactive]
      cases kind <;> first | exact absurd hactive h | rfl

omit [Scalar K] in
/-- A clip takes the open subpath **of the active kind**. -/
theorem opened_held_clip (path : Path K) :
    (path.clip.held kind).opened =
      if path.active = some kind then none else (path.held kind).opened := by
  split
  · next hactive =>
      rw [(clipped_clip path).held_eq ((active_clip path).trans hactive)]
  · next hactive => rw [held_clip_of_ne kind hactive]

/-- A clip takes a closed subpath exactly if **the latest operator of the path** has moved it. -/
theorem closed_held_follow (ops : List (Operator K)) :
    (((empty : Path K).follow ops).held kind).closed =
      (((empty : Path K).follow ops).clip.held kind).closed ++
        (movedLast? kind ops).toList := by
  induction ops using List.reverseRecOn with
  | nil => cases kind <;> rfl
  | append_singleton ops op ih =>
      rw [follow_concat]
      cases huses : op.usesPath with
      | false =>
          rw [apply_of_not_usesPath _ huses, movedLast?_concat_of_not_usesPath kind ops huses]
          exact ih
      | true =>
          by_cases hclose : op = .construct .closePath
          · rw [hclose, movedLast?_concat_closePath]
            exact (closed_closePath kind _).trans
              (congrArg (· ++ _) (closed_closePath_clip kind _).symm)
          · -- nothing was just closed, so that no closed subpath is taken
            have hjust : (((empty : Path K).follow ops).apply op).justClosed = false := by
              cases op with
              | construct c =>
                  refine justClosed_step (wellFormed_follow ops) fun hc => hclose ?_
                  rw [hc]
              | endPath | stroke | closeStroke | fill | fillStroke | closeFillStroke => rfl
              | _ => cases huses
            rw [closed_clip, if_neg (by simp [hjust]), movedLast?_concat_of_ne kind ops huses hclose]
            exact (List.append_nil _).symm

end Clip

/-- **The buffers after any operators.**  Without an active kind nothing has been done, and with one
there is a current point, where the open subpath of this kind ends.  No closed subpath is empty, and
rectangles have their corners.  A clip takes the open subpath of the active kind and the subpath that
the latest operator of the path has moved, if this operator is a closing; all others are left. -/
theorem representation_follow [Scalar K] (ops : List (Operator K)) :
    ((empty : Path K).follow ops).Represented ∧
      (∀ kind,
        (((empty : Path K).follow ops).held kind).closed =
            (((empty : Path K).follow ops).clip.held kind).closed ++
              (movedLast? kind ops).toList ∧
          (((empty : Path K).follow ops).clip.held kind).opened =
            if ((empty : Path K).follow ops).active = some kind then none
            else (((empty : Path K).follow ops).held kind).opened) ∧
      ∀ (union : ContourUnion Float) (c : Context) (op : Operator Float),
        (c.apply union op).path = c.path.apply (op.mapped c.graphics.current c.factor) := by
  refine ⟨?_, fun kind => ⟨closed_held_follow kind ops, opened_held_clip kind _⟩, path_apply⟩
  obtain ⟨steps, hsteps⟩ := exists_run_follow ops
  rw [hsteps]
  exact represented_run steps

end Path

end Artwork
