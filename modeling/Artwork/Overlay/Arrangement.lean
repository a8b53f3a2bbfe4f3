import Std.Data.HashMap
import Artwork.Overlay.Grid
import Artwork.Plane.Ring

/-!
**Contours cut where they meet.**

The edges of the contours cross each other, touch, and run over each other.  They are cut at all the
points where two of them meet, so that afterwards any two pieces have at most an end in common or are
the same.  The points of meeting lie between the grid points; they are kept as exact fractions.

Pairs of edges that may meet are found with a tree of boxes over the edges in the order of drawing:
edges drawn one after the other lie near each other, so that the boxes are small.

Main definitions:

* `Vertex` — an exact point, ordered by `x`, then `y`;
* `Edge` — an edge of a contour, and how often it is run through from its smaller end;
* `Edge.gather` — edges between the same ends as one;
* `Edge.meetings` — **the points at which two edges are cut**;
* `EdgeTree` — edges under boxes;
* `Arc`, `arcs` — the pieces.
-/

set_option relaxedAutoImplicit false
set_option autoImplicit false

namespace Artwork.Overlay

/-! ### Exact points -/

/-- The point `(x / d, y / d)`.  The fraction is in lowest terms, so that equal points have equal
numbers. -/
structure Vertex where
  x : Int
  y : Int
  d : Nat
  deriving Repr, DecidableEq, Hashable

namespace Vertex

/-- A site as an exact point. -/
def ofSite (s : Site) : Vertex :=
  ⟨s.x, s.y, 1⟩

/-- The point `(x / d, y / d)` in lowest terms. -/
def reduced (x y d : Int) : Vertex :=
  let g := Nat.gcd (Int.gcd x y) d.natAbs
  let g' : Int := if d < 0 then -(g : Int) else g
  ⟨x / g', y / g', d.natAbs / g⟩

/-- The order of points by `x`, and by `y` where that is the same. -/
def before (p q : Vertex) : Bool :=
  if p.d == 1 && q.d == 1 then p.x < q.x || p.x == q.x && p.y < q.y
  else
    let px := p.x * q.d
    let qx := q.x * p.d
    px < qx || px == qx && p.y * q.d < q.y * p.d

/-- The vector from a site to the point, times the denominator of the point. -/
def scaledFrom (p : Vertex) (s : Site) : Site :=
  ⟨p.x - s.x * p.d, p.y - s.y * p.d⟩

end Vertex

/-! ### Edges -/

/-- An edge of a contour, from its smaller end to its greater, and how often the contour runs
through it in this direction. -/
structure Edge where
  start : Site
  stop : Site
  weight : Int
  deriving Repr

namespace Edge

/-- The edge between two points of a contour, if they differ. -/
def between? (p q : Site) : Option Edge :=
  if p.before q then some ⟨p, q, 1⟩
  else if q.before p then some ⟨q, p, -1⟩
  else none

/-- The edges of a closed contour. -/
def ofContour (contour : List Site) : List Edge :=
  (cyclicPairs contour).filterMap fun (p, q) => between? p q

/-- For every pair of ends the sum of the weights of the edges between them. -/
def weights (edges : List Edge) : Std.HashMap (Site × Site) Int :=
  edges.foldl
    (fun sums e => sums.insert (e.start, e.stop) (sums.getD (e.start, e.stop) 0 + e.weight)) ∅

/-- Edges between the same ends as one edge with the sum of their weights, in the place of the
first of them. -/
def gather (edges : List Edge) : List Edge :=
  (edges.foldl
    (fun (sums, gathered) e => match sums[(e.start, e.stop)]? with
      | some sum => (sums.erase (e.start, e.stop), { e with weight := sum } :: gathered)
      | none => (sums, gathered))
    (weights edges, [])).2.reverse

/-- The vector from start to stop. -/
def direction (e : Edge) : Site :=
  e.stop - e.start

/-- The points at which two edges are to be cut: the point where they **cross or touch**, or both
ends of the part where they **run over each other**. -/
def meetings (e f : Edge) : List Vertex :=
  let r := e.direction
  let s := f.direction
  let between := f.start - e.start
  let across := r.cross s
  if across == 0 then
    if r.cross between == 0 then
      let first := if e.start.before f.start then f.start else e.start
      let last := if e.stop.before f.stop then e.stop else f.stop
      if last.before first then [] else [.ofSite first, .ofSite last]
    else []
  else
    let sign := across.sign
    let total := across.natAbs
    let along := between.cross s * sign
    let alongOther := between.cross r * sign
    if along < 0 || alongOther < 0 || total < along || total < alongOther then []
    else if along == 0 then [.ofSite e.start]
    else if along == total then [.ofSite e.stop]
    else if alongOther == 0 then [.ofSite f.start]
    else if alongOther == total then [.ofSite f.stop]
    else [.reduced (e.start.x * total + along * r.x) (e.start.y * total + along * r.y) total]

end Edge

/-! ### A tree of boxes -/

/-- A box of grid coordinates. -/
structure Bounds where
  x0 : Int
  y0 : Int
  x1 : Int
  y1 : Int

namespace Bounds

/-- The box of an edge. -/
def ofEdge (e : Edge) : Bounds :=
  ⟨e.start.x, min e.start.y e.stop.y, e.stop.x, max e.start.y e.stop.y⟩

/-- The smallest box around two. -/
def join (a b : Bounds) : Bounds :=
  ⟨min a.x0 b.x0, min a.y0 b.y0, max a.x1 b.x1, max a.y1 b.y1⟩

/-- Two boxes have a point in common. -/
def touches (a b : Bounds) : Bool :=
  a.x0 ≤ b.x1 && b.x0 ≤ a.x1 && a.y0 ≤ b.y1 && b.y0 ≤ a.y1

end Bounds

/-- Edges under boxes.  A leaf holds the number of its edge. -/
inductive EdgeTree where
  | leaf (bounds : Bounds) (number : Nat) (edge : Edge)
  | node (bounds : Bounds) (left right : EdgeTree)

namespace EdgeTree

/-- The box around all edges of the tree. -/
def bounds : EdgeTree → Bounds
  | leaf b _ _ => b
  | node b _ _ => b

/-- Joins neighbouring trees in pairs. -/
def pairUp : List EdgeTree → List EdgeTree
  | a :: b :: rest => node (a.bounds.join b.bounds) a b :: pairUp rest
  | rest => rest

theorem length_pairUp_le (ts : List EdgeTree) : (pairUp ts).length ≤ ts.length := by
  fun_induction pairUp ts with
  | case1 a b rest ih => simp only [List.length_cons]; omega
  | case2 => exact Nat.le_refl _

/-- Joins trees in pairs until there is one tree. -/
def collect : List EdgeTree → Option EdgeTree
  | [] => none
  | [t] => some t
  | a :: b :: rest => collect (pairUp (a :: b :: rest))
termination_by ts => ts.length
decreasing_by
  have := length_pairUp_le rest
  simp only [pairUp, List.length_cons]
  omega

/-- The tree of a list of edges, numbered from zero. -/
def ofEdges (edges : List Edge) : Option EdgeTree :=
  collect (edges.zipIdx.map fun (e, i) => leaf (.ofEdge e) i e)

variable {β : Type}

/-- Passes on, pair by pair, the edges of two trees whose boxes touch. -/
def foldAcross (f : β → Nat × Edge → Nat × Edge → β) : EdgeTree → EdgeTree → β → β
  | leaf a i e, leaf b j e', acc => if a.touches b then f acc (i, e) (j, e') else acc
  | leaf a i e, node b l r, acc =>
    if a.touches b then
      foldAcross f (leaf a i e) r (foldAcross f (leaf a i e) l acc)
    else acc
  | node a l r, leaf b j e', acc =>
    if a.touches b then
      foldAcross f r (leaf b j e') (foldAcross f l (leaf b j e') acc)
    else acc
  | node a l r, node b l' r', acc =>
    if a.touches b then
      foldAcross f r r' (foldAcross f r l' (foldAcross f l r' (foldAcross f l l' acc)))
    else acc
termination_by s t => sizeOf s + sizeOf t

/-- Passes on, pair by pair, the edges of a tree whose boxes touch, each pair once. -/
def foldPairs (f : β → Nat × Edge → Nat × Edge → β) : EdgeTree → β → β
  | leaf .., acc => acc
  | node _ l r, acc => foldAcross f l r (foldPairs f r (foldPairs f l acc))

/-- The winding number just left of a point: the sum over the edges that a ray downwards
from there crosses. -/
def windingLeftOf (p : Vertex) : EdgeTree → Int
  | leaf _ _ e =>
    if e.start.x * p.d < p.x && p.x ≤ e.stop.x * p.d
      && 0 < e.direction.cross (p.scaledFrom e.start) then e.weight
    else 0
  | node b l r =>
    if b.x0 * p.d < p.x && p.x ≤ b.x1 * p.d && b.y0 * p.d < p.y then
      windingLeftOf p l + windingLeftOf p r
    else 0

end EdgeTree

/-! ### Pieces -/

/-- A piece of an edge between two points of meeting, from the smaller to the greater, with the
direction of the edge. -/
structure Arc where
  start : Vertex
  stop : Vertex
  direction : Site
  weight : Int
  deriving Repr

namespace Arc

/-- The order of pieces by their start, and around it counter-clockwise. -/
def atMost (a b : Arc) : Bool :=
  a.start.before b.start || a.start == b.start && 0 ≤ a.direction.cross b.direction

/-- Two pieces are the same piece of the plane. -/
def coincides (a b : Arc) : Bool :=
  a.start == b.start && a.direction.cross b.direction == 0

/-- Puts a piece before others in order.  If it coincides with the first of them, the two count as
one with the sum of their weights. -/
def mergeInto (a : Arc) : List Arc → List Arc
  | [] => [a]
  | b :: bs => if a.coincides b then { b with weight := a.weight + b.weight } :: bs else a :: b :: bs

end Arc

/-- An edge cut at points on it, which may come in any order and repeatedly. -/
def Edge.cutAt (e : Edge) (points : List Vertex) : List Arc :=
  let stations := (Vertex.ofSite e.start :: Vertex.ofSite e.stop :: points).mergeSort
    fun p q => !q.before p
  (stations.zip stations.tail).filterMap fun (p, q) =>
    if p == q then none else some ⟨p, q, e.direction, e.weight⟩

/-- All points where two edges meet, with the number of each of the two. -/
def meetingPoints (tree : EdgeTree) : List (Nat × Vertex) :=
  tree.foldPairs
    (fun found (i, e) (j, f) =>
      (e.meetings f).foldl (fun found p => (i, p) :: (j, p) :: found) found)
    []

/-- For every edge the points where it meets another. -/
def cuts (count : Nat) (tree : EdgeTree) : Array (List Vertex) :=
  (meetingPoints tree).foldl (fun found (i, p) => found.modify i (p :: ·))
    (Array.replicate count [])

/-- The pieces of all edges, in their order, each piece of the plane once. -/
def arcs (edges : List Edge) (tree : EdgeTree) : List Arc :=
  let pieces := (edges.zip (cuts edges.length tree).toList).flatMap fun (e, points) =>
    e.cutAt points
  (pieces.mergeSort Arc.atMost).foldr Arc.mergeInto []

end Artwork.Overlay
