import Mathlib.Data.List.Forall2
import Mathlib.Data.Option.Basic
import Mathlib.Tactic.Ring
import Artwork.Proofs.Scalar
import Artwork.Outline
import Artwork.Proofs.Path.Invariant

/-!
**Transforming operands, or the finished polylines.**

The operands of a construction step are brought into output coordinates before the step is taken.
Without rounding this could as well be done at the end: a path whose operands were transformed is the
transformed path, and its polylines are the transformed polylines.  For the path this takes a map
that keeps different points apart, since closing compares the end of a polyline with its start; for
the samples of a curve it takes weights that add up to one.

Main definitions:

* `Segment.map`, `Subpath.map`, `PendingPath.map`, `Path.map` — the image under a map of points;
* `PendingPath.Traces` — a pending path that is traced by the **images** of another one.

Main results:

* `Path.step_map`, `Path.run_map` — transformed operands build the transformed path;
* `Segment.eval_mapPoint` — sampling a curve commutes with the transform;
* `Path.traces_of_transformed_operands` — what is handed to a painting operator **is traced by the
  images** of what the raw operands build.
-/

set_option relaxedAutoImplicit false
set_option autoImplicit false

namespace Artwork

/-! ### Images -/

section Map

variable {K : Type}

namespace Buffer

variable {α β : Type}

/-- The buffer with the image of every piece. -/
def map (g : α → β) (b : Buffer α) : Buffer β :=
  ⟨b.opened.map g, b.closed.map (List.map g)⟩

theorem isEmpty_opened_map (g : α → β) (b : Buffer α) :
    (b.map g).opened.isEmpty = b.opened.isEmpty :=
  List.isEmpty_map

theorem push_map (g : α → β) (b : Buffer α) (a : α) : (b.map g).push (g a) = (b.push a).map g := by
  simp only [push, map, List.map_append, List.map_singleton]

theorem close_map (g : α → β) (b : Buffer α) : (b.map g).close = b.close.map g := by
  obtain ⟨opened, closed⟩ := b
  cases opened with
  | nil => rfl
  | cons a opened => simp [close, map]

theorem drop_map (g : α → β) (b : Buffer α) (lastClosed : Bool) :
    (b.map g).drop lastClosed = (b.drop lastClosed).map g := by
  cases lastClosed with
  | false => rfl
  | true => exact congrArg (Buffer.mk []) List.map_dropLast.symm

theorem opened?_map (g : α → β) (b : Buffer α) : (b.map g).opened? = b.opened?.map (List.map g) := by
  obtain ⟨opened, closed⟩ := b
  cases opened with
  | nil => rfl
  | cons a opened => rfl

end Buffer

/-- The segment with the image of every control point. -/
def Segment.map (g : Point K → Point K) (s : Segment K) : Segment K :=
  ⟨g s.start, g s.control₁, g s.control₂, g s.stop⟩

/-- The image of a subpath. -/
def Subpath.map (g : Point K → Point K) : Subpath K → Subpath K
  | lines ps => lines (ps.map g)
  | curves chain => curves (chain.map (Segment.map g))
  | rectangle ps => rectangle (ps.map g)

/-- The image of a pending path. -/
def PendingPath.map (g : Point K → Point K) (p : PendingPath K) : PendingPath K :=
  ⟨p.kind, p.closed.map (Subpath.map g), p.opened.map (Subpath.map g)⟩

/-- The image of a path under construction. -/
def Path.map (g : Point K → Point K) (path : Path K) : Path K :=
  { path with
    lines := path.lines.map g
    curves := path.curves.map (Segment.map g)
    rectangles := path.rectangles.map g
    current := path.current.map g
    start := path.start.map g }

/-- A subpath whose points are **the images** of those of another one, curves replaced by
polylines. -/
def Subpath.Traces [Scalar K] (g : Point K → Point K) (curveSteps : Nat) (image original : Subpath K) :
    Prop :=
  image.polyline curveSteps = (original.polyline curveSteps).map g

/-- A pending path that is traced, **subpath by subpath**, by the images of another one. -/
structure PendingPath.Traces [Scalar K] (g : Point K → Point K) (curveSteps : Nat)
    (image original : PendingPath K) : Prop where
  kind : image.kind = original.kind
  closed : List.Forall₂ (Subpath.Traces g curveSteps) image.closed original.closed
  opened : Option.Rel (Subpath.Traces g curveSteps) image.opened original.opened

end Map

namespace Path

variable {K : Type} {g : Point K → Point K}

/-! ### Paths, under a map that keeps points apart -/

theorem map_empty : (empty : Path K).map g = empty := rfl

theorem lineTo_map (path : Path K) (p : Point K) :
    (path.map g).lineTo (g p) = (path.lineTo p).map g := by
  obtain ⟨⟨opened, closed⟩, curves, rectangles, active, current, start, isClosed, justClosed⟩ := path
  cases opened with
  | nil => cases current <;> rfl
  | cons q opened => simp [lineTo, map, Buffer.map, drawn]

theorem curveTo_map (path : Path K) (c₁ c₂ stop : Point K) :
    (path.map g).curveTo (g c₁) (g c₂) (g stop) = (path.curveTo c₁ c₂ stop).map g := by
  unfold curveTo
  cases hcurrent : path.current with
  | none => simp only [map, hcurrent, Option.map_none]
  | some p =>
      simp only [map, hcurrent, Option.map_some, drawn]
      rw [← Buffer.push_map]
      rfl

theorem curveFromCurrent_map (path : Path K) (c₂ stop : Point K) :
    (path.map g).curveFromCurrent (g c₂) (g stop) = (path.curveFromCurrent c₂ stop).map g := by
  unfold curveFromCurrent
  rw [show (path.map g).current = path.current.map g from rfl]
  cases path.current with
  | none => rfl
  | some p => exact curveTo_map path p c₂ stop

theorem rectangle_map [Scalar K] (path : Path K) {p extent e : Point K}
    (h : corners (g p) e = (corners p extent).map g) :
    (path.map g).rectangle (g p) e = (path.rectangle p extent).map g := by
  unfold rectangle
  rw [h, show (path.map g).rectangles = path.rectangles.map g from rfl, Buffer.close_map]
  rfl

section Distinct

variable [Scalar K] [LawfulBEq (Point K)]

/-- Under a map that keeps points apart, the image of a polyline is led back to the image of its start
just where the polyline is led back to its start. -/
theorem ledBack_map (hg : Function.Injective g) (start : Option (Point K))
    (vertices : List (Point K)) :
    ledBack (start.map g) (vertices.map g) = (ledBack start vertices).map g := by
  have hne : ∀ p q, (g p != g q) = (p != q) := by
    intro p q
    rw [Bool.eq_iff_iff, bne_iff_ne, bne_iff_ne, hg.ne_iff]
  unfold ledBack
  rw [List.getLast?_map]
  cases start with
  | none => rfl
  | some s =>
      cases vertices.getLast? with
      | none => rfl
      | some last =>
          simp only [Option.map_some, hne]
          split
          · rw [List.map_append, List.map_singleton]
          · rfl

theorem closePath_map (hg : Function.Injective g) (path : Path K) :
    (path.map g).closePath = path.closePath.map g := by
  have hcurrent : (path.start.map g).or (path.current.map g) = (path.start.or path.current).map g :=
    Option.map_or.symm
  have hmap : (path.map g).active = path.active := rfl
  cases hactive : path.active with
  | none =>
      rw [closePath_of_none hactive, closePath_of_none (hmap.trans hactive)]
      simp only [map, hcurrent]
  | some kind =>
      cases kind with
      | lines =>
          rw [closePath_of_lines hactive, closePath_of_lines (hmap.trans hactive)]
          simp only [map, hcurrent, ← Buffer.close_map]
          simp only [Buffer.map, ledBack_map hg, List.isEmpty_map]
      | curves =>
          rw [closePath_of_curves hactive, closePath_of_curves (hmap.trans hactive)]
          simp only [map, hcurrent, Buffer.close_map, Buffer.isEmpty_opened_map]
      | rectangle =>
          rw [closePath_of_rectangle hactive, closePath_of_rectangle (hmap.trans hactive)]
          simp only [map, hcurrent, Buffer.close_map, Buffer.isEmpty_opened_map]

end Distinct

theorem clip_map (path : Path K) : (path.map g).clip = path.clip.map g := by
  have hmap : (path.map g).active = path.active := rfl
  cases hactive : path.active with
  | none =>
      rw [clip_of_none hactive, clip_of_none (hmap.trans hactive)]
      rfl
  | some kind =>
      cases kind with
      | lines =>
          rw [clip_of_lines hactive, clip_of_lines (hmap.trans hactive)]
          simp only [map, Buffer.drop_map]
      | curves =>
          rw [clip_of_curves hactive, clip_of_curves (hmap.trans hactive)]
          simp only [map, Buffer.drop_map]
      | rectangle =>
          rw [clip_of_rectangle hactive, clip_of_rectangle (hmap.trans hactive)]
          simp only [map, Buffer.drop_map]

theorem held_map (path : Path K) (kind : SubpathKind) :
    (path.map g).held kind = (path.held kind).map g := by
  cases kind <;> simp only [held, map, PendingPath.map, Buffer.opened?_map, Option.map_map] <;>
    simp only [Buffer.map, List.map_map] <;> rfl

/-- A path and its image hand over a pending path and its image. -/
theorem pending?_map (path : Path K) : (path.map g).pending? = path.pending?.map (.map g) := by
  have hempty : ∀ p : PendingPath K, (p.map g).isEmpty = p.isEmpty := by
    intro p
    simp only [PendingPath.isEmpty, PendingPath.map, List.isEmpty_map, Option.isNone_map]
  unfold pending?
  rw [show (path.map g).active = path.active from rfl]
  cases path.active with
  | none => rfl
  | some kind =>
      simp only [Option.map_some, held_map, Option.filter_some, hempty]
      split <;> rfl

end Path

/-! ### The transform of a graphics state -/

section Exact

variable {K : Type} [Field K] [LinearOrder K] (s : GraphicsState K) (factor : K)

/-- Different points stay apart if neither scale is zero, nor the factor. -/
theorem GraphicsState.mapPoint_injective {s : GraphicsState K} {factor : K} (hx : s.scale.x ≠ 0)
    (hy : s.scale.y ≠ 0) (hfactor : factor ≠ 0) : Function.Injective (s.mapPoint factor) := by
  intro p q h
  obtain ⟨px, py⟩ := p
  obtain ⟨qx, qy⟩ := q
  obtain ⟨hpx, hpy⟩ := (Point.mk.injEq ..).mp h
  rw [Point.mk.injEq]
  constructor
  · exact add_right_cancel (mul_right_cancel₀ hx (mul_right_cancel₀ hfactor hpx))
  · exact add_right_cancel (mul_right_cancel₀ hy (mul_right_cancel₀ hfactor hpy))

/-- The corners of a transformed rectangle are the transformed corners: its extent is not
moved, since its origin was. -/
theorem Path.corners_mapPoint (origin extent : Point K) :
    corners (s.mapPoint factor origin) (s.mapExtent factor extent) =
      (corners origin extent).map (s.mapPoint factor) := by
  have hx : (origin.x + s.offset.x) * s.scale.x * factor + extent.x * s.scale.x * factor =
      (origin.x + extent.x + s.offset.x) * s.scale.x * factor := by
    ring
  have hy : (origin.y + s.offset.y) * s.scale.y * factor + extent.y * s.scale.y * factor =
      (origin.y + extent.y + s.offset.y) * s.scale.y * factor := by
    ring
  simp only [corners, GraphicsState.mapPoint, GraphicsState.mapExtent, List.map_cons, List.map_nil,
    hx, hy]

/-- The weights of a curve **add up to one**, so that a sample of the image is the image of the
sample. -/
theorem Segment.eval_mapPoint (segment : Segment K) (t : K) :
    (segment.map (s.mapPoint factor)).eval t = s.mapPoint factor (segment.eval t) := by
  simp only [Segment.eval, Segment.map, GraphicsState.mapPoint]
  rw [Point.mk.injEq]
  simp only [Point.add_x, Point.add_y, Point.mul_x, Point.mul_y]
  constructor <;> ring

theorem Segment.polyline_mapPoint (curveSteps : Nat) (chain : List (Segment K)) :
    polyline curveSteps (chain.map (.map (s.mapPoint factor))) =
      (polyline curveSteps chain).map (s.mapPoint factor) := by
  have hsamples : ∀ segment : Segment K, samples curveSteps (segment.map (s.mapPoint factor)) =
      (samples curveSteps segment).map (s.mapPoint factor) := by
    intro segment
    rw [samples, samples, List.map_map]
    exact List.map_congr_left fun i _ => eval_mapPoint s factor segment _
  unfold polyline
  rw [List.map_append, List.flatMap_map, List.map_flatMap, List.getLast?_map]
  simp only [hsamples]
  cases chain.getLast? <;> rfl

theorem Subpath.traces_map (curveSteps : Nat) (subpath : Subpath K) :
    Traces (s.mapPoint factor) curveSteps (subpath.map (s.mapPoint factor)) subpath := by
  cases subpath with
  | lines ps => rfl
  | curves chain => exact Segment.polyline_mapPoint s factor curveSteps chain
  | rectangle ps => rfl

theorem PendingPath.traces_map (curveSteps : Nat) (p : PendingPath K) :
    Traces (s.mapPoint factor) curveSteps (p.map (s.mapPoint factor)) p where
  kind := rfl
  closed := by
    rw [map, List.forall₂_map_left_iff, List.forall₂_same]
    intro subpath _
    exact Subpath.traces_map s factor curveSteps subpath
  opened := by
    rw [map]
    cases p.opened with
    | none => exact .none
    | some subpath => exact .some (Subpath.traces_map s factor curveSteps subpath)

/-! ### Runs -/

namespace Path

variable {s : GraphicsState K} {factor : K} (hx : s.scale.x ≠ 0) (hy : s.scale.y ≠ 0)
  (hfactor : factor ≠ 0)
include hx hy hfactor

/-- A step with transformed operands leads from the image of a path **to the image of what it leads
to**. -/
theorem step_map (path : Path K) (c : Construction K) :
    (path.map (s.mapPoint factor)).step (c.map s factor) =
      (path.step c).map (s.mapPoint factor) := by
  cases c with
  | moveTo p => rfl
  | lineTo p => exact path.lineTo_map p
  | curveTo c₁ c₂ stop => exact path.curveTo_map c₁ c₂ stop
  | curveFromCurrent c₂ stop => exact path.curveFromCurrent_map c₂ stop
  | curveIntoStop c₁ stop => exact path.curveTo_map c₁ stop stop
  | rectangle origin extent => exact path.rectangle_map (corners_mapPoint s factor origin extent)
  | closePath => exact path.closePath_map (GraphicsState.mapPoint_injective hx hy hfactor)
  | clip => exact path.clip_map

theorem run_map (path : Path K) (steps : List (Construction K)) :
    (path.map (s.mapPoint factor)).run (steps.map (.map s factor)) =
      (path.run steps).map (s.mapPoint factor) := by
  induction steps generalizing path with
  | nil => rfl
  | cons c steps ih => rw [List.map_cons, run_cons, run_cons, step_map hx hy hfactor, ih]

/-- **Transforming the operands is transforming the polylines**: whatever steps a path is built by,
with transformed operands and with raw ones, both give nothing to a painting operator, or both give
the same kind of subpaths, as many closed ones, and an open one or not.  The polyline of each subpath
of the one is, point by point, the transformed polyline of that of the other. -/
theorem traces_of_transformed_operands (curveSteps : Nat) (steps : List (Construction K)) :
    Option.Rel (PendingPath.Traces (s.mapPoint factor) curveSteps)
      ((empty : Path K).run (steps.map (.map s factor))).pending?
      ((empty : Path K).run steps).pending? := by
  have hrun := run_map hx hy hfactor empty steps
  rw [map_empty] at hrun
  rw [hrun, pending?_map]
  cases ((empty : Path K).run steps).pending? with
  | none => exact .none
  | some p => exact .some (PendingPath.traces_map s factor curveSteps p)

end Path

end Exact

/-- A mirrored and stretched page in millimeters. -/
def mirroredPage : GraphicsState ℚ :=
  ⟨⟨5, -7⟩, ⟨2, -3⟩, 1⟩

/-- A rectangle that is clipped to, and two chains of curves after it, of which the second one stays
open. -/
def clippedRibbon : List (Construction ℚ) :=
  [.rectangle ⟨0, 0⟩ ⟨40, 30⟩, .clip, .moveTo ⟨10, 20⟩, .lineTo ⟨12, 20⟩,
    .curveTo ⟨14, 20⟩ ⟨16, 22⟩ ⟨16, 24⟩, .curveFromCurrent ⟨14, 28⟩ ⟨12, 28⟩, .closePath,
    .curveIntoStop ⟨8, 24⟩ ⟨10, 28⟩]

/-- The two chains are traced by the images of their polylines. -/
theorem Path.traces_clippedRibbon :
    mirroredPage.scale.x ≠ 0 ∧ mirroredPage.scale.y ≠ 0 ∧ (127 / 360 : ℚ) ≠ 0 ∧
      ((Path.empty.run clippedRibbon).pending?.map fun p => (p.kind, p.length)) =
        some (.curves, 2) ∧
      Option.Rel (PendingPath.Traces (mirroredPage.mapPoint (127 / 360)) 16)
        (Path.empty.run (clippedRibbon.map (.map mirroredPage (127 / 360)))).pending?
        (Path.empty.run clippedRibbon).pending? :=
  have hx : mirroredPage.scale.x ≠ 0 := by decide
  have hy : mirroredPage.scale.y ≠ 0 := by decide
  have hfactor : (127 / 360 : ℚ) ≠ 0 := by decide +kernel
  ⟨hx, hy, hfactor, by decide +kernel,
    traces_of_transformed_operands hx hy hfactor 16 clippedRibbon⟩

end Artwork
