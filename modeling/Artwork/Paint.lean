import Artwork.Scalar

/-!
**Colours and ways of painting.**

Main definitions:

* `Color` — a colour by its three components, and the exact white that marks cleared copper;
* `FillRule` — which windings are inside;
* `Painting` — what a painting operator does with a path.
-/

set_option relaxedAutoImplicit false
set_option autoImplicit false

namespace Artwork

/-- A colour, each component from 0 to 1. -/
structure Color (K : Type) where
  red : K
  green : K
  blue : K
  deriving Repr, BEq, DecidableEq

namespace Color

variable {K : Type} [Scalar K]

/-- The colour in force until another is set. -/
def black : Color K :=
  ⟨0, 0, 0⟩

/-- The colour of cleared copper. -/
def white : Color K :=
  ⟨1, 1, 1⟩

/-- Only the exact white counts as white. -/
def isWhite (c : Color K) : Bool :=
  c == white

end Color

/-- Which points an outline that crosses itself has inside: those it winds around a number of
times other than zero, or those it winds around an odd number of times. -/
inductive FillRule where
  | nonzero
  | evenOdd
  deriving Repr, BEq, DecidableEq

/-- A winding number that is inside under the rule. -/
def FillRule.isInside : FillRule → Int → Bool
  | nonzero, winding => winding ≠ 0
  | evenOdd, winding => winding % 2 ≠ 0

/-- What is done with a painted path: each subpath is outlined, filled, or both; or the path ends
without being painted. -/
inductive Painting where
  | stroke
  | fill (rule : FillRule)
  | fillAndStroke (rule : FillRule)
  | endPath
  deriving Repr, BEq, DecidableEq

namespace Painting

/-- The rule under which the subpaths are filled, if they are filled. -/
def fillRule? : Painting → Option FillRule
  | fill rule | fillAndStroke rule => some rule
  | stroke | endPath => none

/-- The subpaths are filled. -/
def fills (p : Painting) : Bool :=
  p.fillRule?.isSome

/-- The subpaths are outlined. -/
def strokes : Painting → Bool
  | stroke | fillAndStroke _ => true
  | fill _ | endPath => false

end Painting

end Artwork
