import Artwork.Proofs.Outline.Painting
import Artwork.Proofs.Outline.Vertices
import Artwork.Proofs.Path.Resumption
import Mathlib.Data.List.Induction

/-!
**When it does not matter whether a subpath is closed.**

Closing moves the open subpath of the active kind behind the closed ones, and leads a polyline back
to its start.  A filling takes no notice of either.  An outline does, unless the polyline is drawn
back to its start, or the subpath is a rectangle, which is outlined as a closed one in any case.

Main definitions:

* `Path.painted?` — **what a painting operator makes of a path**;
* `Subpath.ledBack` — what becomes of an open subpath when it is closed;
* `Path.Anchored` — a path whose open polyline begins where its subpath started;
* `Construction.builds` — the steps of paths of one kind.

Main results:

* `Path.held_closePath` — what closing does;
* `Path.painted?_closePath` — when it does not matter;
* `Path.painted?_return_eq_closePath` — a polyline that is drawn back to its start is painted **as if
  it were closed**;
* `Path.painted?_fill_closings` — closing does not matter to fillings, nor to rectangles.
-/

set_option relaxedAutoImplicit false
set_option autoImplicit false

namespace Artwork

/-- The step is one of paths of one kind: it draws a subpath of this kind, or closes it.
Polylines and chains of curves begin with a move. -/
def Construction.builds {K : Type} : SubpathKind → Construction K → Bool
  | .lines, moveTo _ | .lines, lineTo _ => true
  | .curves, moveTo _ | .curves, curveTo .. => true
  | .curves, curveFromCurrent .. | .curves, curveIntoStop .. => true
  | .rectangle, rectangle .. => true
  | _, closePath => true
  | _, _ => false

/-! ### Subpaths -/

namespace Subpath

/-- What becomes of an open subpath when it is closed: a polyline is led back to the start. -/
def ledBack {K : Type} [Scalar K] (start : Option (Point K)) : Subpath K → Subpath K
  | lines vertices => lines (Path.ledBack start vertices)
  | s => s

variable (union : ContourUnion Float) (resolution : Resolution) (painting : Painting) (width : Float)

/-- A polyline that ends at its start is painted as the closed polyline without this end. -/
theorem paint_append_start {p : Point Float} (hp : p.IsFinite) (closed : Bool)
    (ps : List (Point Float)) :
    (lines (p :: ps ++ [p])).paint union resolution painting width closed =
      (lines (p :: ps)).paint union resolution painting width true := by
  refine paint_congr union resolution width painting
    (fun rule => fillPolygon_append_start union rule hp ps) ?_
  exact strokePolyline_append_start union width resolution.circle hp (closed || false) ps

theorem paint_ledBack {p : Point Float} (hp : p.IsFinite) (ps : List (Point Float)) :
    (lines (Path.ledBack (some p) (p :: ps))).paint union resolution painting width true =
      (lines (p :: ps)).paint union resolution painting width true := by
  unfold Path.ledBack
  split
  · next s last hs hlast =>
      cases hs
      split
      · exact paint_append_start union resolution painting width hp true ps
      · rfl
  · rfl

/-- A rectangle is painted as a closed one in any case. -/
theorem paint_rectangle (closed : Bool) (corners : List (Point Float)) :
    (rectangle corners).paint union resolution painting width closed =
      (rectangle corners).paint union resolution painting width true := by
  cases closed <;> rfl

end Subpath

namespace PendingPath

variable {K : Type} [Scalar K] [Trigonometric K] (union : ContourUnion K) (resolution : Resolution)
  (painting : Painting) (width : K)

/-- An open subpath may give way to one behind the closed ones that is painted the same there. -/
theorem paint_closed_concat (kind : SubpathKind) (closed : List (Subpath K)) {s s' : Subpath K}
    (h : s'.paint union resolution painting width true =
      s.paint union resolution painting width false) :
    (⟨kind, closed ++ [s'], none⟩ : PendingPath K).paint union resolution painting width =
      (⟨kind, closed, some s⟩ : PendingPath K).paint union resolution painting width := by
  rw [paint_eq_pieces, paint_eq_pieces]
  unfold pieces
  simp [h]

end PendingPath

namespace Path

/-! ### What closing does -/

section Closing

variable {K : Type} [Scalar K]

omit [Scalar K] in
theorem kind_held (path : Path K) (kind : SubpathKind) : (path.held kind).kind = kind := by
  cases kind <;> rfl

omit [Scalar K] in
/-- An open subpath that is a polyline is the open polyline. -/
theorem opened_of_held_lines {path : Path K} {kind : SubpathKind} {vertices : List (Point K)}
    (h : (path.held kind).opened = some (.lines vertices)) : path.lines.opened = vertices := by
  cases kind with
  | lines =>
      obtain ⟨_, hopened, hsame⟩ := Option.map_eq_some_iff.1 h
      cases hsame
      unfold Buffer.opened? at hopened
      split at hopened
      · cases hopened
      · exact Option.some.inj hopened
  | curves =>
      obtain ⟨_, -, hsame⟩ := Option.map_eq_some_iff.1 h
      cases hsame
  | rectangle =>
      obtain ⟨_, -, hsame⟩ := Option.map_eq_some_iff.1 h
      cases hsame

theorem active_closePath (path : Path K) : path.closePath.active = path.active := by
  unfold closePath
  dsimp only
  split <;> rfl

theorem isEmpty_ledBack (start : Option (Point K)) (vertices : List (Point K)) :
    (ledBack start vertices).isEmpty = vertices.isEmpty := by
  cases vertices with
  | nil => rw [ledBack_nil]
  | cons p ps =>
      unfold ledBack
      split
      · split <;> rfl
      · rfl

theorem opened?_ledBack (start : Option (Point K)) (b : Buffer (Point K)) :
    ({ b with opened := ledBack start b.opened } : Buffer (Point K)).opened? =
      b.opened?.map (ledBack start) := by
  unfold Buffer.opened?
  dsimp only
  rw [isEmpty_ledBack]
  cases b.opened.isEmpty <;> rfl

theorem start_closePath (path : Path K) : path.closePath.start = path.start := by
  unfold closePath
  dsimp only
  split <;> rfl

theorem current_closePath (path : Path K) :
    path.closePath.current = path.start.or path.current := by
  unfold closePath
  dsimp only
  split <;> rfl

/-- Closing moves the open subpath of the active kind **behind the closed ones**. -/
theorem held_closePath {path : Path K} {kind : SubpathKind} (h : path.active = some kind) :
    path.closePath.held kind =
      ⟨kind, (path.held kind).closed ++
        ((path.held kind).opened.map (Subpath.ledBack path.start)).toList, none⟩ := by
  cases kind with
  | lines =>
      rw [closePath_of_lines h, Buffer.close_eq, opened?_ledBack]
      unfold held
      cases path.lines.opened? <;> simp [Subpath.ledBack, Buffer.opened?]
  | curves =>
      rw [closePath_of_curves h, Buffer.close_eq]
      unfold held
      cases path.curves.opened? <;> simp [Subpath.ledBack, Buffer.opened?]
  | rectangle =>
      rw [closePath_of_rectangle h, Buffer.close_eq]
      unfold held
      cases path.rectangles.opened? <;> simp [Subpath.ledBack, Buffer.opened?]

end Closing

/-! ### What is painted -/

section Painted

variable {K : Type} [Scalar K] [Trigonometric K] (union : ContourUnion K) (resolution : Resolution)
  (painting : Painting) (width : K)

/-- **What a painting operator makes of a path**, if it is handed anything. -/
def painted? (path : Path K) : Option (Batch K) :=
  path.pending?.map fun pending => pending.paint union resolution painting width

theorem painted?_of_active {path : Path K} {kind : SubpathKind} (h : path.active = some kind) :
    path.painted? union resolution painting width =
      if (path.held kind).isEmpty then none
      else some ((path.held kind).paint union resolution painting width) := by
  unfold painted? pending?
  rw [h, Option.map_some, Option.filter_some]
  cases (path.held kind).isEmpty <;> rfl

/-- Closing **does not matter** to what is painted, if it does not matter to the open subpath. -/
theorem painted?_closePath {path : Path K}
    (h : ∀ kind s, path.active = some kind → (path.held kind).opened = some s →
      (s.ledBack path.start).paint union resolution painting width true =
        s.paint union resolution painting width false) :
    path.closePath.painted? union resolution painting width =
      path.painted? union resolution painting width := by
  match hactive : path.active with
  | none =>
      unfold painted? pending?
      rw [active_closePath, hactive]
      rfl
  | some kind =>
      rw [painted?_of_active _ _ _ _ hactive,
        painted?_of_active _ _ _ _ ((active_closePath path).trans hactive),
        held_closePath hactive]
      have hsame := fun s => h kind s hactive
      have hkind := kind_held path kind
      generalize path.held kind = held at hsame hkind
      obtain ⟨kind', closed, opened⟩ := held
      obtain rfl : kind' = kind := hkind
      cases opened with
      | none => simp
      | some s =>
          dsimp only [Option.map_some, Option.toList_some]
          rw [PendingPath.paint_closed_concat union resolution painting width kind' closed
            (hsame s rfl)]
          simp [PendingPath.isEmpty]

end Painted

/-! ### Drawing back to the start -/

/-- After a move and lines, the polyline is active, exactly these points are open, and the start is
where the move has led. -/
theorem run_moveTo_lineTo {K : Type} [Scalar K] (path : Path K) (p : Point K) (ps : List (Point K)) :
    (path.run (.moveTo p :: ps.map .lineTo)).active = some .lines ∧
      (path.run (.moveTo p :: ps.map .lineTo)).lines = ⟨p :: ps, path.lines.closed⟩ ∧
      (path.run (.moveTo p :: ps.map .lineTo)).start = some p := by
  induction ps using List.reverseRecOn with
  | nil => exact ⟨rfl, rfl, rfl⟩
  | append_singleton ps q ih =>
      obtain ⟨-, hlines, hstart⟩ := ih
      rw [List.map_append, ← List.cons_append, run_append]
      refine ⟨rfl, ?_, hstart⟩
      change (lineTo _ q).lines = _
      unfold lineTo drawn
      dsimp only
      rw [hlines]
      rfl

theorem held_run_moveTo_lineTo {K : Type} [Scalar K] (path : Path K) (p : Point K)
    (ps : List (Point K)) :
    (path.run (.moveTo p :: ps.map .lineTo)).held .lines =
      ⟨.lines, path.lines.closed.map .lines, some (.lines (p :: ps))⟩ := by
  obtain ⟨-, hlines, -⟩ := run_moveTo_lineTo path p ps
  unfold held
  rw [hlines]
  rfl

/-- A polyline that is **drawn back to its start** is painted as if it were closed, in whatever way
it is painted, and whatever has been drawn before. -/
theorem painted?_return_eq_closePath (union : ContourUnion Float) (resolution : Resolution)
    (painting : Painting) (width : Float) (path : Path Float) {p : Point Float} (hp : p.IsFinite)
    (ps : List (Point Float)) :
    ∃ batch,
      (path.run (.moveTo p :: ps.map .lineTo ++ [.lineTo p])).painted? union resolution painting
          width = some batch ∧
        (path.run (.moveTo p :: ps.map .lineTo ++ [.closePath])).painted? union resolution painting
          width = some batch := by
  have hreturn : Construction.moveTo p :: ps.map .lineTo ++ [.lineTo p] =
      .moveTo p :: (ps ++ [p]).map .lineTo := by simp
  obtain ⟨hactive, -, hstart⟩ := run_moveTo_lineTo path p ps
  obtain ⟨hactive', -, -⟩ := run_moveTo_lineTo path p (ps ++ [p])
  have hheld := held_run_moveTo_lineTo path p ps
  have hclosed := (active_closePath _).trans hactive
  -- both are painted as the closed polyline that does not come back
  have hsame : (Subpath.lines (ledBack (some p) (p :: ps))).paint union resolution painting width
        true =
      (Subpath.lines (p :: (ps ++ [p]))).paint union resolution painting width false :=
    (Subpath.paint_ledBack union resolution painting width hp ps).trans
      (Subpath.paint_append_start union resolution painting width hp false ps).symm
  refine ⟨(⟨.lines, path.lines.closed.map .lines, some (.lines (p :: (ps ++ [p])))⟩ :
    PendingPath Float).paint union resolution painting width, ?_, ?_⟩
  · rw [hreturn, painted?_of_active _ _ _ _ hactive', held_run_moveTo_lineTo]
    simp [PendingPath.isEmpty]
  · rw [run_append]
    change (closePath _).painted? union resolution painting width = _
    rw [painted?_of_active _ _ _ _ hclosed, held_closePath hactive, hheld, hstart]
    dsimp only [Option.map_some, Option.toList_some, Subpath.ledBack]
    rw [PendingPath.paint_closed_concat union resolution painting width .lines _ hsame]
    simp [PendingPath.isEmpty]

/-- The other corners of a triangle, and its start again but for the sign of a zero. -/
def otherCorners : List (Point Float) :=
  [⟨4, 0⟩, ⟨4, 4⟩, ⟨-0.0, 0⟩]

theorem painted?_return_triangle :
    let union : ContourUnion Float := fun contours _ => contours.map ([·])
    let lines : List (Construction Float) := .moveTo ⟨0, 0⟩ :: otherCorners.map .lineTo
    (⟨0, 0⟩ : Point Float).IsFinite ∧
      ∃ batch,
        ((empty : Path Float).run (lines ++ [.lineTo ⟨0, 0⟩])).painted? union (.atLeast 8 8) .stroke
            1 = some batch ∧
          ((empty : Path Float).run (lines ++ [.closePath])).painted? union (.atLeast 8 8) .stroke
            1 = some batch := by
  intro union lines
  have hfinite : (⟨0, 0⟩ : Point Float).IsFinite := ⟨by decide +kernel, by decide +kernel⟩
  exact ⟨hfinite, painted?_return_eq_closePath union _ _ _ _ hfinite otherCorners⟩

/-! ### Paths of one kind -/

/-- A path whose subpath started at a point with finite coordinates, and whose open polyline
begins there. -/
structure Anchored (path : Path Float) : Prop where
  isFinite_start : ∀ s, path.start = some s → s.IsFinite
  head_opened : ∀ s, path.start = some s → ∀ v, path.lines.opened.head? = some v → v = s

/-- Where there is no open polyline, the next one begins at the start of the subpath. -/
def Rests (path : Path Float) : Prop :=
  path.lines.opened = [] → ∀ s, path.start = some s → path.current = some s

theorem anchored_empty : (empty : Path Float).Anchored where
  isFinite_start := nofun
  head_opened := nofun

theorem rests_empty : (empty : Path Float).Rests := by
  intro _ s hs
  cases hs

namespace Anchored

variable {path : Path Float}

theorem moveTo {p : Point Float} (hp : p.IsFinite) : (path.moveTo p).Anchored where
  isFinite_start := by
    rintro s ⟨⟩
    exact hp
  head_opened := by
    rintro s ⟨⟩ v ⟨⟩
    rfl

theorem lineTo (h : path.Anchored) (hrests : path.Rests) (p : Point Float) :
    (path.lineTo p).Anchored where
  isFinite_start := h.isFinite_start
  head_opened := by
    intro s hs v hv
    unfold Path.lineTo drawn at hv
    dsimp only at hv
    cases hopened : path.lines.opened with
    | nil =>
        rw [hopened, hrests hopened s hs] at hv
        exact (Option.some.inj hv).symm
    | cons q qs =>
        rw [hopened] at hv
        exact h.head_opened s hs v (by rw [hopened]; exact hv)

theorem curveTo (h : path.Anchored) (c₁ c₂ stop : Point Float) :
    (path.curveTo c₁ c₂ stop).Anchored := by
  unfold Path.curveTo
  split
  · exact h
  · exact ⟨h.isFinite_start, h.head_opened⟩

theorem closePath (h : path.Anchored) : path.closePath.Anchored := by
  have hempty : ∀ b : Buffer (Point Float), b.close.opened.head? = none := by
    intro b
    rw [Buffer.opened_close]
    rfl
  unfold Path.closePath
  dsimp only
  split
  · exact ⟨h.isFinite_start, h.head_opened⟩
  · exact ⟨h.isFinite_start, fun s _ v hv => by rw [hempty] at hv; cases hv⟩
  · exact ⟨h.isFinite_start, h.head_opened⟩
  · exact ⟨h.isFinite_start, h.head_opened⟩

end Anchored

theorem rests_closePath (path : Path Float) : path.closePath.Rests := by
  intro _ s hs
  rw [start_closePath] at hs
  rw [current_closePath, hs]
  rfl

section OneStep

variable {path : Path Float} {c : Construction Float}

theorem Anchored.step_lines (hc : c.builds .lines = true)
    (hfinite : ∀ p, c = .moveTo p → p.IsFinite) (h : path.Anchored ∧ path.Rests) :
    (path.step c).Anchored ∧ (path.step c).Rests := by
  cases c with
  | moveTo p => exact ⟨.moveTo (hfinite p rfl), nofun⟩
  | lineTo p =>
      refine ⟨h.1.lineTo h.2 p, fun hopened => ?_⟩
      exact absurd hopened (List.append_ne_nil_of_right_ne_nil _ (List.cons_ne_nil p []))
  | closePath => exact ⟨h.1.closePath, rests_closePath path⟩
  | _ => cases hc

theorem Anchored.step_curves (hc : c.builds .curves = true)
    (hfinite : ∀ p, c = .moveTo p → p.IsFinite) (h : path.Anchored) : (path.step c).Anchored := by
  cases c with
  | moveTo p => exact .moveTo (hfinite p rfl)
  | curveTo c₁ c₂ stop => exact h.curveTo c₁ c₂ stop
  | curveFromCurrent c₂ stop =>
      change (path.curveFromCurrent c₂ stop).Anchored
      unfold curveFromCurrent
      split
      · exact h
      · exact h.curveTo _ c₂ stop
  | curveIntoStop c₁ stop => exact h.curveTo c₁ stop stop
  | closePath => exact h.closePath
  | _ => cases hc

end OneStep

/-- A path of lines, or one of curves, is anchored all the way, if its moves are finite. -/
theorem anchored_run {kind : SubpathKind} (hkind : kind ≠ .rectangle)
    {steps : List (Construction Float)} (h : ∀ c ∈ steps, c.builds kind = true)
    (hfinite : ∀ p, .moveTo p ∈ steps → p.IsFinite) : ((empty : Path Float).run steps).Anchored := by
  have hmoves : ∀ c ∈ steps, ∀ p, c = .moveTo p → p.IsFinite := by
    rintro _ hc p rfl
    exact hfinite p hc
  cases kind with
  | lines =>
      -- a line that begins an open polyline begins it at the current point, hence `Rests`
      exact (run_induction (P := fun path => path.Anchored ∧ path.Rests)
        (fun c hc _ => Anchored.step_lines (h c hc) (hmoves c hc))
        ⟨anchored_empty, rests_empty⟩).1
  | curves =>
      exact run_induction (fun c hc _ => Anchored.step_curves (h c hc) (hmoves c hc)) anchored_empty
  | rectangle => exact absurd rfl hkind

/-- All that is drawn is rectangles. -/
def OnlyRectangles (path : Path Float) : Prop :=
  ∀ kind, path.active = some kind → kind = .rectangle

theorem OnlyRectangles.closePath {path : Path Float} (h : path.OnlyRectangles) :
    path.closePath.OnlyRectangles :=
  fun kind hkind => h kind ((active_closePath path).symm.trans hkind)

theorem onlyRectangles_run {steps : List (Construction Float)}
    (h : ∀ c ∈ steps, c.builds .rectangle = true) :
    ((empty : Path Float).run steps).OnlyRectangles := by
  have hempty : (empty : Path Float).OnlyRectangles := nofun
  refine run_induction (fun c hc path hpath => ?_) hempty
  have hbuilds := h c hc
  cases c with
  | rectangle origin extent =>
      rintro kind ⟨⟩
      rfl
  | closePath => exact hpath.closePath
  | _ => cases hbuilds

section Painted

variable (union : ContourUnion Float) (resolution : Resolution) (width : Float)

/-- Closing before a filling changes nothing of what is painted, if the path is anchored. -/
theorem painted?_fill_closePath (rule : FillRule) {path : Path Float} (h : path.Anchored) :
    path.closePath.painted? union resolution (.fill rule) width =
      path.painted? union resolution (.fill rule) width := by
  refine painted?_closePath union resolution (.fill rule) width fun kind s _ hs => ?_
  have hfill : s.paint union resolution (.fill rule) width true =
      s.paint union resolution (.fill rule) width false := by
    rw [Subpath.paint_fill, Subpath.paint_fill]
  rw [← hfill]
  cases s with
  | curves chain => rfl
  | rectangle corners => rfl
  | lines vertices =>
      cases hstart : path.start with
      | none => rfl
      | some p =>
          have hhead := h.head_opened p hstart
          -- the start is led back to, and it is the first vertex already
          cases vertices with
          | nil => rfl
          | cons v vs =>
              obtain rfl := hhead v (by rw [opened_of_held_lines hs]; rfl)
              exact Subpath.paint_ledBack union resolution _ width (h.isFinite_start v hstart) vs

/-- Closing a path of rectangles changes nothing of what is painted. -/
theorem painted?_closePath_of_onlyRectangles (painting : Painting) {path : Path Float}
    (h : path.OnlyRectangles) :
    path.closePath.painted? union resolution painting width =
      path.painted? union resolution painting width := by
  refine painted?_closePath union resolution painting width fun kind s hactive hs => ?_
  obtain rfl := h kind hactive
  obtain ⟨corners, -, rfl⟩ := Option.map_eq_some_iff.1 hs
  exact (Subpath.paint_rectangle union resolution painting width false corners).symm

/-- Closing any number of times changes nothing of what is painted, if closing once never does. -/
theorem painted?_run_closings {P : Path Float → Prop} {painting : Painting}
    (hkeep : ∀ path, P path → P path.closePath)
    (hsame : ∀ path, P path → path.closePath.painted? union resolution painting width =
      path.painted? union resolution painting width) (n : Nat) {path : Path Float} (h : P path) :
    (path.run (List.replicate n .closePath)).painted? union resolution painting width =
      path.painted? union resolution painting width := by
  induction n generalizing path with
  | zero => rfl
  | succ n ih =>
      rw [List.replicate_succ, run_cons]
      exact (ih (hkeep path h)).trans (hsame path h)

/-- It does not matter to a filling which subpaths are closed. -/
theorem paint_fill_subpaths (rule : FillRule) (pending : PendingPath Float) :
    (⟨pending.kind, pending.subpaths, none⟩ : PendingPath Float).paint union resolution (.fill rule)
        width =
      pending.paint union resolution (.fill rule) width := by
  obtain ⟨kind, closed, opened⟩ := pending
  cases opened with
  | none => exact congrArg (fun all => PendingPath.paint union resolution (.fill rule) width
      ⟨kind, all, none⟩) (List.append_nil closed)
  | some s =>
      refine PendingPath.paint_closed_concat union resolution (.fill rule) width kind closed ?_
      rw [Subpath.paint_fill, Subpath.paint_fill]

/-- **Closing does not matter to fillings, nor to rectangles.**  An area does not depend on whether
the start is repeated, nor on which subpaths are closed; and a path of lines, of curves or of
rectangles may be closed any number of times before it is filled.  A path of rectangles may be closed
before it is painted in whatever way. -/
theorem painted?_fill_closings :
    (∀ (rule : FillRule) (ps : List (Point Float)), (∀ p, ps.head? = some p → p.IsFinite) →
        fillPolygon union rule (ps ++ ps.head?.toList) = fillPolygon union rule ps) ∧
      (∀ (rule : FillRule) (pending : PendingPath Float),
        (⟨pending.kind, pending.subpaths, none⟩ : PendingPath Float).paint union resolution
            (.fill rule) width =
          pending.paint union resolution (.fill rule) width) ∧
      (∀ (kind : SubpathKind) (steps : List (Construction Float)),
        (∀ c ∈ steps, c.builds kind = true) → (∀ p, .moveTo p ∈ steps → p.IsFinite) →
        ∀ (rule : FillRule) (n : Nat),
          ((empty : Path Float).run (steps ++ List.replicate n .closePath)).painted? union resolution
              (.fill rule) width =
            ((empty : Path Float).run steps).painted? union resolution (.fill rule) width) ∧
      ∀ steps : List (Construction Float), (∀ c ∈ steps, c.builds .rectangle = true) →
        ∀ (painting : Painting) (n : Nat),
          ((empty : Path Float).run (steps ++ List.replicate n .closePath)).painted? union resolution
              painting width =
            ((empty : Path Float).run steps).painted? union resolution painting width := by
  have hrectangles : ∀ steps : List (Construction Float),
      (∀ c ∈ steps, c.builds .rectangle = true) → ∀ (painting : Painting) (n : Nat),
        ((empty : Path Float).run (steps ++ List.replicate n .closePath)).painted? union resolution
            painting width =
          ((empty : Path Float).run steps).painted? union resolution painting width := by
    intro steps hsteps painting n
    rw [run_append]
    exact painted?_run_closings (P := OnlyRectangles) union resolution width
      (fun _ => OnlyRectangles.closePath)
      (fun _ => painted?_closePath_of_onlyRectangles union resolution width painting) n
      (onlyRectangles_run hsteps)
  refine ⟨fun rule ps hps => ?_, fun rule => paint_fill_subpaths union resolution width rule,
    fun kind steps hsteps hfinite rule n => ?_, hrectangles⟩
  · cases ps with
    | nil => rfl
    | cons p ps => exact fillPolygon_append_start union rule (hps p rfl) ps
  · by_cases hkind : kind = .rectangle
    · rw [hkind] at hsteps
      exact hrectangles steps hsteps (.fill rule) n
    · rw [run_append]
      exact painted?_run_closings (P := Anchored) union resolution width
        (fun _ => Anchored.closePath)
        (fun _ => painted?_fill_closePath union resolution width rule) n
        (anchored_run hkind hsteps hfinite)

/-- The corners of a square, without the first one again. -/
def squareCorners : List (Point Float) :=
  [⟨0, 0⟩, ⟨1, 0⟩, ⟨1, 1⟩, ⟨0, 1⟩]

theorem painted?_fill_closings_square :
    let union : ContourUnion Float := fun contours _ => contours.map ([·])
    let lines : List (Construction Float) :=
      [.moveTo ⟨0, 0⟩, .lineTo ⟨1, 0⟩, .lineTo ⟨1, 1⟩, .lineTo ⟨0, 1⟩]
    let rectangle : List (Construction Float) := [.rectangle ⟨0, 0⟩ ⟨1, 1⟩]
    fillPolygon union .evenOdd (squareCorners ++ [⟨0, 0⟩]) =
        fillPolygon union .evenOdd squareCorners ∧
      ((empty : Path Float).run (lines ++ List.replicate 2 .closePath)).painted? union (.atLeast 8 8)
          (.fill .evenOdd) 1 =
        ((empty : Path Float).run lines).painted? union (.atLeast 8 8) (.fill .evenOdd) 1 ∧
      ((empty : Path Float).run (rectangle ++ List.replicate 2 .closePath)).painted? union
          (.atLeast 8 8) .stroke 1 =
        ((empty : Path Float).run rectangle).painted? union (.atLeast 8 8) .stroke 1 := by
  intro union lines rectangle
  have hfinite : (⟨0, 0⟩ : Point Float).IsFinite := ⟨by decide +kernel, by decide +kernel⟩
  obtain ⟨happend, -, hfill, hstroke⟩ := painted?_fill_closings union (.atLeast 8 8) 1
  refine ⟨happend .evenOdd squareCorners (by rintro p ⟨⟩; exact hfinite),
    hfill .lines lines (by decide) (fun p hp => ?_) .evenOdd 2,
    hstroke rectangle (by decide) .stroke 2⟩
  obtain ⟨rfl⟩ : Construction.moveTo p = .moveTo ⟨0, 0⟩ := by simpa [lines] using hp
  exact hfinite

end Painted

end Path

end Artwork
