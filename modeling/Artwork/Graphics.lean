import Artwork.Plane.Point

/-!
**The graphics state and the stack of saved states.**

Operands are in points of a page.  The graphics state maps them to output coordinates: it adds an
offset, multiplies by a scale along each axis, and converts points into the unit of the output.  Only
matrices that do one of these two things are followed; a matrix that turns, skews, or moves and scales
at once is left out.

Main definitions:

* `GraphicsState` — offset, scale and line width;
* `GraphicsState.mapPoint`, `GraphicsState.mapExtent` — operands into output coordinates;
* `Matrix`, `Matrix.effect` — what a matrix is taken to mean;
* `StateStack` — the state in force and the states that were saved.
-/

set_option relaxedAutoImplicit false
set_option autoImplicit false

namespace Artwork

/-- The transform and the line width in force. -/
structure GraphicsState (K : Type) where
  /-- The translation so far, in points. -/
  offset : Point K
  /-- The scale so far along each axis. -/
  scale : Point K
  /-- The width of strokes, in the unit of the output. -/
  lineWidth : K
  deriving Repr, DecidableEq

namespace GraphicsState

variable {K : Type} [Scalar K]

/-- The state at the start of a page: nothing is moved or scaled, and lines are one point wide.
`factor` is the length of a point in the unit of the output. -/
def initial (factor : K) : GraphicsState K :=
  ⟨⟨0, 0⟩, ⟨1, 1⟩, factor⟩

/-- Adds a shift to the offset. -/
def translate (s : GraphicsState K) (shift : Point K) : GraphicsState K :=
  { s with offset := s.offset + shift }

/-- Multiplies the scales by factors, one for each axis. -/
def scaleBy (s : GraphicsState K) (factors : Point K) : GraphicsState K :=
  { s with scale := ⟨s.scale.x * factors.x, s.scale.y * factors.y⟩ }

/-- An operand point in output coordinates: shifted, scaled, and converted by `factor`. -/
def mapPoint (s : GraphicsState K) (factor : K) (p : Point K) : Point K :=
  ⟨(p.x + s.offset.x) * s.scale.x * factor, (p.y + s.offset.y) * s.scale.y * factor⟩

/-- A width and a height in output coordinates: an extent is not moved. -/
def mapExtent (s : GraphicsState K) (factor : K) (extent : Point K) : Point K :=
  ⟨extent.x * s.scale.x * factor, extent.y * s.scale.y * factor⟩

/-- Sets the line width from an operand, scaled by the mean of the two scales. -/
def setLineWidth (s : GraphicsState K) (factor : K) (width : K) : GraphicsState K :=
  let mean := (Scalar.magnitude s.scale.x + Scalar.magnitude s.scale.y) / (2 : Nat)
  { s with lineWidth := width * mean * factor }

end GraphicsState

/-- The six numbers of an affine map, `x ↦ a x + c y + e` and `y ↦ b x + d y + f`. -/
structure Matrix (K : Type) where
  a : K
  b : K
  c : K
  d : K
  e : K
  f : K
  deriving Repr, DecidableEq

/-- What a matrix is taken to mean. -/
inductive MatrixEffect (K : Type) where
  | translated (shift : Point K)
  | scaled (factors : Point K)
  | identity
  | unsupported
  deriving Repr, DecidableEq

namespace Matrix

variable {K : Type} [Scalar K]

/-- The matrix mixes the axes. -/
def mixes (m : Matrix K) : Bool :=
  m.b != 0 || m.c != 0

/-- The matrix moves the origin. -/
def moves (m : Matrix K) : Bool :=
  m.e != 0 || m.f != 0

/-- The matrix has a scale other than one. -/
def rescales (m : Matrix K) : Bool :=
  m.a != 1 || m.d != 1

/-- A matrix is followed if it only moves or only scales. -/
def effect (m : Matrix K) : MatrixEffect K :=
  if m.mixes then .unsupported
  else match m.moves, m.rescales with
    | true, false => .translated ⟨m.e, m.f⟩
    | false, true => .scaled ⟨m.a, m.d⟩
    | false, false => .identity
    | true, true => .unsupported

end Matrix

/-- The state after a matrix with this effect. -/
def GraphicsState.apply {K : Type} [Scalar K] (s : GraphicsState K) :
    MatrixEffect K → GraphicsState K
  | .translated shift => s.translate shift
  | .scaled factors => s.scaleBy factors
  | .identity | .unsupported => s

/-- The state in force over the saved states, the latest first. -/
structure StateStack (K : Type) where
  current : GraphicsState K
  saved : List (GraphicsState K)
  deriving Repr, DecidableEq

namespace StateStack

variable {K : Type} [Scalar K]

/-- The stack at the start of a page. -/
def initial (factor : K) : StateStack K :=
  ⟨.initial factor, []⟩

/-- How many states are saved. -/
def depth (s : StateStack K) : Nat :=
  s.saved.length

/-- Saves the state in force. -/
def save (s : StateStack K) : StateStack K :=
  { s with saved := s.current :: s.saved }

/-- Brings the latest saved state back; without one there is nothing to bring back. -/
def restore? (s : StateStack K) : Option (StateStack K) :=
  match s.saved with
  | [] => none
  | state :: rest => some ⟨state, rest⟩

/-- Brings the latest saved state back, or changes nothing when none is saved. -/
def restore (s : StateStack K) : StateStack K :=
  s.restore?.getD s

/-- Follows a matrix as far as it is supported. -/
def concat (s : StateStack K) (m : Matrix K) : StateStack K :=
  { s with current := s.current.apply m.effect }

/-- Sets the line width of the state in force. -/
def setLineWidth (s : StateStack K) (factor width : K) : StateStack K :=
  { s with current := s.current.setLineWidth factor width }

end StateStack

end Artwork
