import Artwork.Plane.Curve
import Artwork.Graphics

/-!
**Paths under construction.**

A path is gathered in three buffers, one for each kind of subpath: polylines, chains of curves, and
rectangles.  Every buffer holds the subpaths that were closed and the one that is still open.  The
kind of the latest construction step is the *active* kind, and only its subpaths are painted.

Main definitions:

* `Subpath`, `PendingPath` — what a painting operator receives;
* `Buffer` — the closed subpaths of one kind and the open one;
* `Path` — the three buffers, the active kind, the current point and the start of the subpath;
* `Construction`, `Path.step` — **the steps that build a path**;
* `Path.pending?`, `Path.leftOver` — what is painted, and how much is not;
* `Path.discard`, `Path.takeForPaint` — the ends of a path, after which it is empty.
-/

set_option relaxedAutoImplicit false
set_option autoImplicit false

namespace Artwork

/-- The kinds of subpaths. -/
inductive SubpathKind where
  | lines
  | curves
  | rectangle
  deriving Repr, BEq, DecidableEq

/-- One connected piece of a path: the vertices of a polyline, the segments of a chain of curves, or
the corners of a rectangle with the first one repeated. -/
inductive Subpath (K : Type) where
  | lines (vertices : List (Point K))
  | curves (segments : List (Segment K))
  | rectangle (corners : List (Point K))
  deriving Repr, DecidableEq

namespace Subpath

variable {K : Type}

/-- The kind of a subpath. -/
def kind : Subpath K → SubpathKind
  | lines _ => .lines
  | curves _ => .curves
  | rectangle _ => .rectangle

/-- The subpath holds no vertex and no segment. -/
def isEmpty : Subpath K → Bool
  | lines ps | rectangle ps => ps.isEmpty
  | curves ss => ss.isEmpty

end Subpath

/-- The subpaths handed to a painting operator, all of one kind. -/
structure PendingPath (K : Type) where
  kind : SubpathKind
  /-- The subpaths that were closed, in the order of closing. -/
  closed : List (Subpath K)
  /-- The subpath that was not closed. -/
  opened : Option (Subpath K)
  deriving Repr, DecidableEq

/-- All subpaths that are handed over, the open one last. -/
def PendingPath.subpaths {K : Type} (p : PendingPath K) : List (Subpath K) :=
  p.closed ++ p.opened.toList

/-- How many subpaths are handed over. -/
def PendingPath.length {K : Type} (p : PendingPath K) : Nat :=
  p.subpaths.length

/-- No subpath is handed over. -/
def PendingPath.isEmpty {K : Type} (p : PendingPath K) : Bool :=
  p.closed.isEmpty && p.opened.isNone

/-- The subpaths of one kind: those that were closed, and the one that is still open, which
is empty when there is none. -/
structure Buffer (α : Type) where
  opened : List α
  closed : List (List α)
  deriving Repr, DecidableEq

namespace Buffer

variable {α : Type}

/-- The buffer without subpaths. -/
def empty : Buffer α :=
  ⟨[], []⟩

/-- The buffer holds no subpath. -/
def isEmpty (b : Buffer α) : Bool :=
  b.opened.isEmpty && b.closed.isEmpty

/-- The open subpath grows by a piece at its end. -/
def push (b : Buffer α) (a : α) : Buffer α :=
  { b with opened := b.opened ++ [a] }

/-- The open subpath, if there is one, joins the closed ones. -/
def close (b : Buffer α) : Buffer α :=
  if b.opened.isEmpty then b else ⟨[], b.closed ++ [b.opened]⟩

/-- Drops the open subpath and, if asked to, the one that was closed last. -/
def drop (b : Buffer α) (lastClosed : Bool) : Buffer α :=
  ⟨[], if lastClosed then b.closed.dropLast else b.closed⟩

/-- The open subpath, if there is one. -/
def opened? (b : Buffer α) : Option (List α) :=
  if b.opened.isEmpty then none else some b.opened

end Buffer

/-- A path under construction. -/
structure Path (K : Type) where
  lines : Buffer (Point K)
  curves : Buffer (Segment K)
  rectangles : Buffer (Point K)
  /-- The kind of the latest construction step. -/
  active : Option SubpathKind
  /-- Where the next line or curve starts. -/
  current : Option (Point K)
  /-- Where the subpath started, which is where closing leads back to. -/
  start : Option (Point K)
  /-- Nothing was drawn since the subpath was closed. -/
  isClosed : Bool
  /-- The latest step closed a subpath that had something in it. -/
  justClosed : Bool
  deriving Repr, DecidableEq

/-- A **construction step** with its operands. -/
inductive Construction (K : Type) where
  | moveTo (p : Point K)
  | lineTo (p : Point K)
  | curveTo (control₁ control₂ stop : Point K)
  /-- The curve whose first control point is the current point. -/
  | curveFromCurrent (control₂ stop : Point K)
  /-- The curve whose second control point is its stop point. -/
  | curveIntoStop (control₁ stop : Point K)
  /-- The rectangle with a corner at `origin`; `extent` is its width and its height. -/
  | rectangle (origin extent : Point K)
  | closePath
  | clip
  deriving Repr, DecidableEq

/-- The step with its operands in output coordinates. -/
def Construction.map {K : Type} [Scalar K] (s : GraphicsState K) (factor : K) :
    Construction K → Construction K
  | moveTo p => moveTo (s.mapPoint factor p)
  | lineTo p => lineTo (s.mapPoint factor p)
  | curveTo c₁ c₂ p => curveTo (s.mapPoint factor c₁) (s.mapPoint factor c₂) (s.mapPoint factor p)
  | curveFromCurrent c₂ p => curveFromCurrent (s.mapPoint factor c₂) (s.mapPoint factor p)
  | curveIntoStop c₁ p => curveIntoStop (s.mapPoint factor c₁) (s.mapPoint factor p)
  | rectangle p extent => rectangle (s.mapPoint factor p) (s.mapExtent factor extent)
  | closePath => closePath
  | clip => clip

namespace Path

variable {K : Type}

/-- The path in which nothing was drawn yet. -/
def empty : Path K :=
  ⟨.empty, .empty, .empty, none, none, none, false, false⟩

/-- No buffer holds a subpath. -/
def isEmpty (path : Path K) : Bool :=
  path.lines.isEmpty && path.curves.isEmpty && path.rectangles.isEmpty

/-! ### Construction -/

/-- Starts a subpath at `p`.  An open polyline and an open chain of curves are abandoned. -/
def moveTo (path : Path K) (p : Point K) : Path K :=
  { path with
    lines := { path.lines with opened := [p] }
    curves := { path.curves with opened := [] }
    active := some .lines
    current := some p
    start := some p
    isClosed := false
    justClosed := false }

/-- What every drawing step leaves behind: its kind is active, and it ends at the current point. -/
def drawn (path : Path K) (kind : SubpathKind) (stop : Point K) : Path K :=
  { path with active := some kind, current := some stop, isClosed := false, justClosed := false }

/-- A line to `p`.  The first line of a polyline brings its start, the current point, along. -/
def lineTo (path : Path K) (p : Point K) : Path K :=
  let opened := if path.lines.opened.isEmpty then path.current.toList else path.lines.opened
  { path with lines := { path.lines with opened := opened ++ [p] } }.drawn .lines p

/-- A curve from the current point; without a current point nothing is drawn. -/
def curveTo (path : Path K) (c₁ c₂ stop : Point K) : Path K :=
  match path.current with
  | none => path
  | some p => { path with curves := path.curves.push ⟨p, c₁, c₂, stop⟩ }.drawn .curves stop

/-- A curve whose first control point is the current point. -/
def curveFromCurrent (path : Path K) (c₂ stop : Point K) : Path K :=
  match path.current with
  | none => path
  | some p => path.curveTo p c₂ stop

/-- A curve whose second control point is its stop point. -/
def curveIntoStop (path : Path K) (c₁ stop : Point K) : Path K :=
  path.curveTo c₁ stop stop

section Scalar

variable [Scalar K]

/-- The corners of the rectangle, with the first one repeated. -/
def corners (origin extent : Point K) : List (Point K) :=
  [origin, ⟨origin.x + extent.x, origin.y⟩, ⟨origin.x + extent.x, origin.y + extent.y⟩,
    ⟨origin.x, origin.y + extent.y⟩, origin]

/-- A rectangle.  The one before it, if it is still open, is closed first. -/
def rectangle (path : Path K) (origin extent : Point K) : Path K :=
  { path with
    rectangles := { path.rectangles.close with opened := corners origin extent }
    active := some .rectangle
    current := some origin
    start := some origin
    isClosed := false
    justClosed := false }

/-- A polyline led back to `start`, unless it ends there already or is empty. -/
def ledBack (start : Option (Point K)) (vertices : List (Point K)) : List (Point K) :=
  match start, vertices.getLast? with
  | some s, some last => if last != s then vertices ++ [s] else vertices
  | _, _ => vertices

/-- Closes the open subpath of the active kind.  A polyline is led back to its start; the current
point returns there in any case. -/
def closePath (path : Path K) : Path K :=
  let path := { path with current := path.start.or path.current }
  match path.active with
  | none => { path with justClosed := false }
  | some .lines =>
    let lines := { path.lines with opened := ledBack path.start path.lines.opened }
    { path with lines := lines.close, isClosed := true, justClosed := !lines.opened.isEmpty }
  | some .curves =>
    { path with
      curves := path.curves.close
      isClosed := true
      justClosed := !path.curves.opened.isEmpty }
  | some .rectangle =>
    { path with
      rectangles := path.rectangles.close
      isClosed := true
      justClosed := !path.rectangles.opened.isEmpty }

end Scalar

/-- Drops what a clip region was drawn with: the open subpath of the active kind, and the subpath
that the step before has closed. -/
def clip (path : Path K) : Path K :=
  let kept := { path with justClosed := false }
  match path.active with
  | none => kept
  | some .lines => { kept with lines := path.lines.drop path.justClosed }
  | some .curves => { kept with curves := path.curves.drop path.justClosed }
  | some .rectangle => { kept with rectangles := path.rectangles.drop path.justClosed }

/-- One **construction step**, its operands in output coordinates. -/
def step [Scalar K] (path : Path K) : Construction K → Path K
  | .moveTo p => path.moveTo p
  | .lineTo p => path.lineTo p
  | .curveTo c₁ c₂ p => path.curveTo c₁ c₂ p
  | .curveFromCurrent c₂ p => path.curveFromCurrent c₂ p
  | .curveIntoStop c₁ p => path.curveIntoStop c₁ p
  | .rectangle p extent => path.rectangle p extent
  | .closePath => path.closePath
  | .clip => path.clip

/-! ### Painting -/

/-- The subpaths of one kind as they would be handed to a painting operator. -/
def held (path : Path K) (kind : SubpathKind) : PendingPath K :=
  match kind with
  | .lines => ⟨kind, path.lines.closed.map .lines, path.lines.opened?.map .lines⟩
  | .curves => ⟨kind, path.curves.closed.map .curves, path.curves.opened?.map .curves⟩
  | .rectangle =>
    ⟨kind, path.rectangles.closed.map .rectangle, path.rectangles.opened?.map .rectangle⟩

/-- What a painting operator receives: the subpaths of the active kind, if there are any. -/
def pending? (path : Path K) : Option (PendingPath K) :=
  (path.active.map path.held).filter (!·.isEmpty)

/-- How many subpaths a painting operator passes over because their kind is not active. -/
def leftOver (path : Path K) : Nat :=
  let kinds := [SubpathKind.lines, .curves, .rectangle].filter (path.active != some ·)
  (kinds.flatMap fun kind => (path.held kind).subpaths).length

/-- Gives the path up: every buffer is emptied, and nothing is active or current any more. -/
def discard (path : Path K) : Path K :=
  { path with
    lines := .empty
    curves := .empty
    rectangles := .empty
    active := none
    current := none
    start := none
    isClosed := false
    justClosed := false }

/-- What is taken from a path for a painting operator. -/
structure Taken (K : Type) where
  /-- The subpaths that are painted. -/
  pending : Option (PendingPath K)
  /-- How many others are given up with them. -/
  leftOver : Nat
  /-- The path afterwards. -/
  rest : Path K

/-- Takes the subpaths of the active kind for a painting operator and gives the path up. -/
def takeForPaint (path : Path K) : Taken K :=
  ⟨path.pending?, path.leftOver, path.discard⟩

/-- Of a path that is given up nothing is left. -/
@[simp] theorem discard_eq_empty (path : Path K) : path.discard = .empty := rfl

/-- Nothing is left of the path from which its subpaths were taken, either. -/
@[simp] theorem rest_takeForPaint (path : Path K) : path.takeForPaint.rest = .empty := rfl

end Path

end Artwork
