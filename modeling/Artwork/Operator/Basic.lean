import Artwork.Path
import Artwork.Paint

/-!
**Operators of a content stream.**

Main definitions:

* `Operator` — the operators the importer follows, with their operands as they were written;
* `Operator.painting?` — what a painting operator does, and whether it closes the subpath first.
-/

set_option relaxedAutoImplicit false
set_option autoImplicit false

namespace Artwork

/-- An operator with its operands, which are not mapped to output coordinates yet. -/
inductive Operator (K : Type) where
  | strokeColor (color : Color K)
  | fillColor (color : Color K)
  /-- A matrix; `saving` tells that the state is saved before. -/
  | transform (saving : Bool) (matrix : Matrix K)
  | save
  | restore
  | lineWidth (width : K)
  | construct (step : Construction K)
  | endPath
  | stroke
  | closeStroke
  | fill (rule : FillRule)
  | fillStroke (rule : FillRule)
  | closeFillStroke (rule : FillRule)
  deriving Repr, DecidableEq

/-- What a painting operator does with the path, and whether it closes the subpath first. -/
def Operator.painting? {K : Type} : Operator K → Option (Bool × Painting)
  | stroke => some (false, .stroke)
  | closeStroke => some (true, .stroke)
  | fill rule => some (false, .fill rule)
  | fillStroke rule => some (false, .fillAndStroke rule)
  | closeFillStroke rule => some (true, .fillAndStroke rule)
  | _ => none

end Artwork
