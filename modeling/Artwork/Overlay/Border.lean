import Std.Data.HashMap
import Artwork.Overlay.Arrangement
import Artwork.Paint

/-!
**The border of what is inside.**

The winding number is the same all along either side of a piece, and it changes by the weight of the
piece from its right side to its left.  The pieces are visited by their starts, from left to right
and, at each start, counter-clockwise: below the first of them the winding number is that below the
steepest piece that ends there, or, if none does, that of the region the point lies in.

A piece whose sides differ in being inside belongs to the border.

Main definitions:

* `Sweep` — what is known about the winding numbers so far;
* `BorderArc`, `border` — **the border**, each piece with the side on which the inside lies.
-/

set_option relaxedAutoImplicit false
set_option autoImplicit false

namespace Artwork.Overlay

/-- The steepest piece that ends at a point, by its direction, and the winding number right of
it. -/
structure Incoming where
  direction : Site
  right : Int

/-- A **piece of the border**, from its smaller end to its greater.  The inside lies on its right, which
is below it, or on its left. -/
structure BorderArc where
  start : Vertex
  stop : Vertex
  direction : Site
  insideRight : Bool
  deriving Repr

/-- What the sweep knows at a piece: the steepest pieces that ended so far, the point where the
latest pieces started with the winding number left of the latest, and the border found. -/
structure Sweep where
  incoming : Std.HashMap Vertex Incoming
  start : Option Vertex
  winding : Int
  border : List BorderArc

namespace Sweep

/-- The sweep before the first piece. -/
def initial : Sweep :=
  ⟨∅, none, 0, []⟩

/-- The winding number right of a piece. -/
def rightOf (s : Sweep) (tree : EdgeTree) (a : Arc) : Int :=
  if s.start == some a.start then s.winding
  else match s.incoming[a.start]? with
    | some i => i.right
    | none => tree.windingLeftOf a.start

/-- Keeps the steeper of the pieces that end at the same point. -/
def arrive (incoming : Std.HashMap Vertex Incoming) (a : Arc) (right : Int) :
    Std.HashMap Vertex Incoming :=
  match incoming[a.stop]? with
  | some i => if i.direction.cross a.direction > 0 then incoming.insert a.stop ⟨a.direction, right⟩
      else incoming
  | none => incoming.insert a.stop ⟨a.direction, right⟩

/-- The piece as part of the border, if its sides differ. -/
def borderArc? (rule : FillRule) (a : Arc) (left right : Int) : Option BorderArc :=
  if rule.isInside left == rule.isInside right then none
  else some ⟨a.start, a.stop, a.direction, rule.isInside right⟩

/-- Visits one piece. -/
def visit (rule : FillRule) (tree : EdgeTree) (s : Sweep) (a : Arc) : Sweep :=
  let right := s.rightOf tree a
  let left := right + a.weight
  { incoming := arrive s.incoming a right
    start := some a.start
    winding := left
    border := (borderArc? rule a left right).toList ++ s.border }

end Sweep

/-- The **border** of what is inside under the rule, in the order of the pieces. -/
def border (rule : FillRule) (tree : EdgeTree) (pieces : List Arc) : List BorderArc :=
  (pieces.foldl (Sweep.visit rule tree) .initial).border.reverse

end Artwork.Overlay
