import Artwork.Overlay.Border

/-!
**Rings of the border.**

Rings are traced from left to right, each from its leftmost point and along the uppermost piece there
that no ring has taken yet.  If the inside lies below this piece the ring is an exterior, otherwise a
hole.  An exterior keeps the inside on its right; where more than two pieces meet it takes the next
one counter-clockwise, so that areas that touch in a point stay apart.  A hole takes the next one
clockwise, so that holes that touch in a point stay apart too.  A ring ends as soon as it is back at
the point where it started.

Main definitions:

* `Spoke`, `Junctions` — the pieces around each point, counter-clockwise;
* `Step` — a piece in the direction in which a ring takes it;
* `Tracing.walk`, `rings` — **the rings of a border**;
* `corners` — a ring without the points in the middle of a straight line.
-/

set_option relaxedAutoImplicit false
set_option autoImplicit false

namespace Artwork.Overlay

/-! ### Pieces around a point -/

/-- One end of a piece of the border, seen from the point at which it lies.  The direction leads
away from the point. -/
structure Spoke where
  center : Vertex
  direction : Site
  arc : Nat

namespace Spoke

/-- Both ends of a piece. -/
def ofArc (a : BorderArc) (number : Nat) : List Spoke :=
  [⟨a.start, a.direction, number⟩, ⟨a.stop, ⟨-a.direction.x, -a.direction.y⟩, number⟩]

/-- The direction leads to a greater point. -/
def leadsForward (s : Spoke) : Bool :=
  (⟨0, 0⟩ : Site).before s.direction

/-- The order of spokes by their point, and around it counter-clockwise from straight down. -/
def atMost (s t : Spoke) : Bool :=
  s.center.before t.center || s.center == t.center &&
    (if s.leadsForward == t.leadsForward then 0 ≤ s.direction.cross t.direction
      else s.leadsForward)

end Spoke

/-- The numbers of the pieces around each point, counter-clockwise. -/
abbrev Junctions := Std.HashMap Vertex (List Nat)

/-- The junctions of a border. -/
def junctions (border : List BorderArc) : Junctions :=
  let spokes := (border.zipIdx.flatMap fun (a, i) => Spoke.ofArc a i).mergeSort Spoke.atMost
  (spokes.splitBy fun s t => s.center == t.center).foldl (fun found around =>
    match around with
    | [] => found
    | s :: _ => found.insert s.center (around.map (·.arc))) ∅

/-- The first piece after `arc` on the way around a point that is not taken yet. -/
def nextAround (taken : Array Bool) (arc : Nat) (around : List Nat) : Option Nat :=
  let after := (around.dropWhile (· != arc)).drop 1
  let before := around.takeWhile (· != arc)
  (after ++ before).find? fun i => !taken.getD i true

/-! ### Tracing -/

/-- A piece of the border as a ring takes it. -/
structure Step where
  start : Vertex
  stop : Vertex
  direction : Site
  deriving Repr

/-- The piece taken away from a point that is one of its ends. -/
def BorderArc.stepFrom (a : BorderArc) (p : Vertex) : Step :=
  if a.start == p then ⟨a.start, a.stop, a.direction⟩
  else ⟨a.stop, a.start, ⟨-a.direction.x, -a.direction.y⟩⟩

/-- A ring of the border. -/
structure TracedRing where
  isExterior : Bool
  steps : List Step
  deriving Repr

/-- What is fixed while rings are traced. -/
structure Tracing where
  border : Array BorderArc
  junctions : Junctions

/-- Goes on from `here`, where the piece `arc` has led to, **until `home`**.  Every step takes one more
piece, so that `fuel` can be the number of pieces. -/
def Tracing.walk (t : Tracing) (isExterior : Bool) (home : Vertex) :
    (fuel : Nat) → (here : Vertex) → (arc : Nat) → Array Bool × List Step → Array Bool × List Step
  | 0, _, _, found => found
  | fuel + 1, here, arc, (taken, steps) =>
    if here == home then (taken, steps)
    else
      let around := t.junctions.getD here []
      match nextAround taken arc (if isExterior then around else around.reverse) with
      | none => (taken, steps)
      | some next =>
        match t.border[next]? with
        | none => (taken, steps)
        | some a =>
          let step := a.stepFrom here
          t.walk isExterior home fuel step.stop next (taken.set! next true, step :: steps)

/-- Traces the ring of a piece, the uppermost at its start.  An exterior takes the piece forwards,
a hole backwards. -/
def Tracing.ringOf (t : Tracing) (taken : Array Bool) (a : BorderArc) (number : Nat) :
    Array Bool × TracedRing :=
  let home := if a.insideRight then a.start else a.stop
  let first := a.stepFrom home
  let (taken, steps) := t.walk a.insideRight home t.border.size first.stop number
    (taken.set! number true, [first])
  (taken, ⟨a.insideRight, steps.reverse⟩)

/-- The pieces in the order in which rings may start along them: from left to right, and from the
uppermost down.  The border is in the order of its pieces, which goes up at each point. -/
def startOrder (border : List BorderArc) : List (BorderArc × Nat) :=
  (border.zipIdx.splitBy fun (a, _) (b, _) => a.start == b.start).flatMap List.reverse

/-- The **rings of a border**. -/
def rings (border : List BorderArc) : List TracedRing :=
  let t : Tracing := ⟨border.toArray, junctions border⟩
  let start := (Array.replicate border.length false, ([] : List TracedRing))
  let (_, found) := (startOrder border).foldl (fun (taken, found) (a, i) =>
    if taken.getD i true then (taken, found)
    else
      let (taken, ring) := t.ringOf taken a i
      (taken, ring :: found)) start
  found.reverse

/-! ### Corners -/

/-- A point at which a ring turns, and the direction in which it leaves it. -/
structure Corner where
  point : Vertex
  leaving : Site
  deriving Repr

/-- The points of a ring at which it turns, from its start on. -/
def corners (ring : List Step) : List Corner :=
  ((ring.getLast?.toList ++ ring).zip ring).filterMap fun (before, step) =>
    if before.direction.cross step.direction == 0 then none else some ⟨step.start, step.direction⟩

end Artwork.Overlay
