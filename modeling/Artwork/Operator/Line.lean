import Artwork.Operator.Basic
import Artwork.Decimal.Numeral
import Artwork.Text.Runs

/-!
**Lines as operators.**

A line is read by its words.  Each form of operator accepts certain lists of words: most of them so
many numerals and then a keyword.  The forms are tried in order, and the first that accepts the words
decides; a line that no form accepts is no operator.

Main definitions:

* `Form`, `Form.priority` — **the forms of operators**, in the order in which they are tried;
* `Form.read?` — the words a form accepts;
* `Form.operator?` — the operator of a form with its operands;
* `classify` — the operator of a line.
-/

set_option relaxedAutoImplicit false
set_option autoImplicit false

namespace Artwork

/-- The words of a line: maximal runs of characters that are not blank. -/
def words (line : List Char) : List (List Char) :=
  runs isBlank line

/-- The forms of operators. -/
inductive Form where
  | strokeColor
  | fillColor
  | transform
  | save
  | restore
  | moveTo
  | lineTo
  | curveTo
  | curveFromCurrent
  | curveIntoStop
  | rectangle
  | clip
  | closePath
  | lineWidth
  | endPath
  | stroke
  | closeStroke
  | fill
  | fillStroke
  | closeFillStroke
  deriving Repr, DecidableEq

namespace Form

/-- All forms **in the order in which they are tried**. -/
def priority : List Form :=
  [strokeColor, fillColor, transform, save, restore, moveTo, lineTo, curveTo, curveFromCurrent,
    curveIntoStop, rectangle, clip, closePath, lineWidth, endPath, stroke, closeStroke, fill,
    fillStroke, closeFillStroke]

/-- The words that end an operator of the form. -/
def keywords : Form → List (List Char)
  | strokeColor => [['R', 'G']]
  | fillColor => [['r', 'g']]
  | transform => [['c', 'm']]
  | save => [['q']]
  | restore => [['Q']]
  | moveTo => [['m']]
  | lineTo => [['l']]
  | curveTo => [['c']]
  | curveFromCurrent => [['v']]
  | curveIntoStop => [['y']]
  | rectangle => [['r', 'e']]
  | clip => [['W'], ['W', '*']]
  | closePath => [['h']]
  | lineWidth => [['w']]
  | endPath => [['n']]
  | stroke => [['S']]
  | closeStroke => [['s']]
  | fill => [['f'], ['F'], ['f', '*']]
  | fillStroke => [['B'], ['B', '*']]
  | closeFillStroke => [['b'], ['b', '*']]

/-- How many numerals come before the keyword. -/
def arity : Form → Nat
  | strokeColor | fillColor => 3
  | transform | curveTo => 6
  | curveFromCurrent | curveIntoStop | rectangle => 4
  | moveTo | lineTo => 2
  | lineWidth => 1
  | _ => 0

end Form

/-- What a form finds in the words it accepts: whether the state is saved before, the operands, and
the keyword. -/
structure Reading where
  saving : Bool
  operands : List Numeral
  keyword : List Char
  deriving Repr, DecidableEq

namespace Form

/-- Exactly as many numerals as the form asks for, and then its keyword. -/
def readPlain? (f : Form) (ws : List (List Char)) : Option Reading :=
  match ws.getLast?, ws.dropLast.mapM Numeral.read? with
  | some keyword, some operands =>
    if operands.length = f.arity ∧ keyword ∈ f.keywords then some ⟨false, operands, keyword⟩
    else none
  | _, _ => none

/-- What the form finds in a list of words, if it accepts them.  A matrix may follow a saving of
the state on the same line, and a clip the end of the path.  A restoring of the state is found
anywhere on the line. -/
def read? (f : Form) (ws : List (List Char)) : Option Reading :=
  match f with
  | transform =>
    match ws with
    | ['q'] :: rest => (f.readPlain? rest).map ({ · with saving := true })
    | _ => f.readPlain? ws
  | clip =>
    match ws with
    | [keyword, ['n']] => f.readPlain? [keyword]
    | _ => f.readPlain? ws
  | restore => if ['Q'] ∈ ws then some ⟨false, [], ['Q']⟩ else none
  | _ => f.readPlain? ws

/-- The form accepts the words. -/
def accepts (f : Form) (ws : List (List Char)) : Bool :=
  (f.read? ws).isSome

/-- A star at the end of a keyword asks for the even-odd rule. -/
def ruleOf (keyword : List Char) : FillRule :=
  if keyword.getLast? = some '*' then .evenOdd else .nonzero

/-- The operator of a form with the values of its operands. -/
def operator? {K : Type} (f : Form) (saving : Bool) (keyword : List Char) (operands : List K) :
    Option (Operator K) :=
  match f, operands with
  | strokeColor, [r, g, b] => some (.strokeColor ⟨r, g, b⟩)
  | fillColor, [r, g, b] => some (.fillColor ⟨r, g, b⟩)
  | transform, [a, b, c, d, e, f] => some (.transform saving ⟨a, b, c, d, e, f⟩)
  | save, [] => some .save
  | restore, [] => some .restore
  | moveTo, [x, y] => some (.construct (.moveTo ⟨x, y⟩))
  | lineTo, [x, y] => some (.construct (.lineTo ⟨x, y⟩))
  | curveTo, [x₁, y₁, x₂, y₂, x₃, y₃] =>
    some (.construct (.curveTo ⟨x₁, y₁⟩ ⟨x₂, y₂⟩ ⟨x₃, y₃⟩))
  | curveFromCurrent, [x₂, y₂, x₃, y₃] => some (.construct (.curveFromCurrent ⟨x₂, y₂⟩ ⟨x₃, y₃⟩))
  | curveIntoStop, [x₁, y₁, x₃, y₃] => some (.construct (.curveIntoStop ⟨x₁, y₁⟩ ⟨x₃, y₃⟩))
  | rectangle, [x, y, w, h] => some (.construct (.rectangle ⟨x, y⟩ ⟨w, h⟩))
  | clip, [] => some (.construct .clip)
  | closePath, [] => some (.construct .closePath)
  | lineWidth, [width] => some (.lineWidth width)
  | endPath, [] => some .endPath
  | stroke, [] => some .stroke
  | closeStroke, [] => some .closeStroke
  | fill, [] => some (.fill (ruleOf keyword))
  | fillStroke, [] => some (.fillStroke (ruleOf keyword))
  | closeFillStroke, [] => some (.closeFillStroke (ruleOf keyword))
  | _, _ => none

/-- The operator of words that a form has read; operands without a value make no operator. -/
def build (f : Form) (r : Reading) : Option (Operator Float) :=
  (r.operands.mapM Numeral.value?).bind (f.operator? r.saving r.keyword)

end Form

/-- The operator of a list of words, the forms being tried in the given order: the first form that
accepts the words decides. -/
def classifyWords (forms : List Form) (ws : List (List Char)) : Option (Operator Float) :=
  match forms.findSome? fun f => (f.read? ws).map (f, ·) with
  | some (f, reading) => f.build reading
  | none => none

/-- The operator of a line, if it is one. -/
def classify (line : List Char) : Option (Operator Float) :=
  classifyWords Form.priority (words line)

end Artwork
