import Artwork.Import.Stream
import Artwork.Proofs.Layer.Deposits
import Mathlib.Data.List.Induction

/-!
**An import as a run of the layer builder.**

Following a line changes the layers only through calls of the layer builder: one for a stroke
colour, two for a painting operator, the fillings first and then the outlines.  So an import is a
run of these calls, and what is known of all runs of the builder holds for every text.

Main definitions:

* `Context.painted`, `Context.calls` — what an operator paints, and what the builder is asked for;
* `Context.after`, `Context.lineCalls` — the state after lines, and what a line asks for;
* `ImportRun` — **an import to its end**, with what each of its lines paints and deposits.

Main results:

* `Context.layers_apply`, `ImportRun.layers_before` — **the layers are a run of the builder**;
* `ImportRun.strokeColor_before`, `ImportRun.fillColor_before` — the colours in force are those set
  last;
* `importWith_never` — an import that is not stopped ends with the layout of its run.
-/

set_option relaxedAutoImplicit false
set_option autoImplicit false

namespace Artwork

open LayerBuilder (Call)

/-- The stroke colour that an operator sets. -/
def Operator.strokeColor? {K : Type} : Operator K → Option (Color K)
  | strokeColor color => some color
  | _ => none

/-- The fill colour that an operator sets. -/
def Operator.fillColor? {K : Type} : Operator K → Option (Color K)
  | fillColor color => some color
  | _ => none

namespace Context

variable (union : ContourUnion Float)

/-! ### Operators -/

/-- The polygons that an operator paints. -/
def painted (c : Context) (op : Operator Float) : Batch Float :=
  match op.painting? with
  | none => .empty
  | some (closing, painting) =>
    let c := if closing then c.construct .closePath else c
    match c.path.pending? with
    | none => .empty
    | some pending => pending.paint union c.resolution painting c.graphics.current.lineWidth

/-- How the builder is asked for a batch: the fillings first, which are clear if they are white,
and then the outlines. -/
def batchCalls (c : Context) (batch : Batch Float) : List Call :=
  [.classify batch.fill c.graphics.current.lineWidth c.fillColor.isWhite c.strokeColor,
    .classify batch.stroke c.graphics.current.lineWidth false c.strokeColor]

/-- What an operator asks the builder for. -/
def calls (c : Context) (op : Operator Float) : List Call :=
  match op.strokeColor?, op.painting? with
  | some color, _ => [.observe color]
  | none, some _ => c.batchCalls (c.painted union op)
  | none, none => []

theorem run_batchCalls_empty (c : Context) : c.layers.run (c.batchCalls .empty) = c.layers := rfl

theorem layers_paint (c : Context) (painting : Painting) :
    (c.paint union painting).layers =
      c.layers.run (c.batchCalls
        (match c.path.pending? with
          | none => .empty
          | some pending =>
            pending.paint union c.resolution painting c.graphics.current.lineWidth)) := by
  rw [paint_eq_match]
  cases c.path.pending? with
  | none => exact (run_batchCalls_empty c).symm
  | some pending => rfl

/-- An operator changes the layers **by its calls**. -/
theorem layers_apply (c : Context) (op : Operator Float) :
    (c.apply union op).layers = c.layers.run (c.calls union op) := by
  cases op with
  | stroke => exact layers_paint union c .stroke
  | closeStroke => exact layers_paint union (c.construct .closePath) .stroke
  | fill rule => exact layers_paint union c (.fill rule)
  | fillStroke rule => exact layers_paint union c (.fillAndStroke rule)
  | closeFillStroke rule =>
      exact layers_paint union (c.construct .closePath) (.fillAndStroke rule)
  | _ => rfl

theorem colors_paint (c : Context) (painting : Painting) :
    (c.paint union painting).strokeColor = c.strokeColor ∧
      (c.paint union painting).fillColor = c.fillColor := by
  rw [paint_eq_match]
  split <;> exact ⟨rfl, rfl⟩

/-- The colours in force are changed only by the operators that set them. -/
theorem colors_apply (c : Context) (op : Operator Float) :
    (c.apply union op).strokeColor = op.strokeColor?.getD c.strokeColor ∧
      (c.apply union op).fillColor = op.fillColor?.getD c.fillColor := by
  cases op with
  | stroke => exact colors_paint union c .stroke
  | closeStroke => exact colors_paint union (c.construct .closePath) .stroke
  | fill rule => exact colors_paint union c (.fill rule)
  | fillStroke rule => exact colors_paint union c (.fillAndStroke rule)
  | closeFillStroke rule =>
      exact colors_paint union (c.construct .closePath) (.fillAndStroke rule)
  | _ => exact ⟨rfl, rfl⟩

/-! ### Lines -/

/-- The polygons that a line paints. -/
def linePainted (c : Context) (line : List Char) : Batch Float :=
  match classify line with
  | some op => c.painted union op
  | none => .empty

/-- What a line asks the builder for. -/
def lineCalls (c : Context) (line : List Char) : List Call :=
  match classify line with
  | some op => c.calls union op
  | none => []

/-- The state after lines. -/
def after (c : Context) (ls : List (List Char)) : Context :=
  ls.foldl (applyLine union) c

theorem after_append (c : Context) (ls later : List (List Char)) :
    c.after union (ls ++ later) = (c.after union ls).after union later :=
  List.foldl_append ..

theorem layers_applyLine (c : Context) (line : List Char) :
    (c.applyLine union line).layers = c.layers.run (c.lineCalls union line) := by
  unfold applyLine lineCalls
  cases classify line with
  | none => rfl
  | some op => exact layers_apply union c op

/-- The colour that a line sets; `pick` says which colour of an operator counts. -/
def colorSet (pick : Operator Float → Option (Color Float)) (line : List Char) :
    Option (Color Float) :=
  (classify line).bind pick

/-- The colour that lines set last, or else the one before them. -/
def lastColor (pick : Operator Float → Option (Color Float)) (before : Color Float)
    (ls : List (List Char)) : Color Float :=
  (ls.filterMap (colorSet pick)).getLast?.getD before

theorem lastColor_concat (pick : Operator Float → Option (Color Float)) (before : Color Float)
    (ls : List (List Char)) (line : List Char) :
    lastColor pick before (ls ++ [line]) =
      (colorSet pick line).getD (lastColor pick before ls) := by
  unfold lastColor
  rw [List.filterMap_append]
  cases h : colorSet pick line with
  | none => rw [List.filterMap_cons_none h, List.filterMap_nil, List.append_nil, Option.getD_none]
  | some color =>
      rw [List.filterMap_cons_some h, List.filterMap_nil, List.getLast?_concat]
      rfl

theorem colors_applyLine (c : Context) (line : List Char) :
    (c.applyLine union line).strokeColor =
        (colorSet Operator.strokeColor? line).getD c.strokeColor ∧
      (c.applyLine union line).fillColor =
        (colorSet Operator.fillColor? line).getD c.fillColor := by
  unfold applyLine colorSet
  cases classify line with
  | none => exact ⟨rfl, rfl⟩
  | some op => exact colors_apply union c op

/-- The colours in force after lines are those set last. -/
theorem colors_after (c : Context) (ls : List (List Char)) :
    (c.after union ls).strokeColor = lastColor Operator.strokeColor? c.strokeColor ls ∧
      (c.after union ls).fillColor = lastColor Operator.fillColor? c.fillColor ls := by
  induction ls using List.reverseRecOn with
  | nil => exact ⟨rfl, rfl⟩
  | append_singleton ls line ih =>
      obtain ⟨hstroke, hfill⟩ := ih
      obtain ⟨hstroke', hfill'⟩ := colors_applyLine union (c.after union ls) line
      rw [after_append, lastColor_concat, lastColor_concat, ← hstroke, ← hfill]
      exact ⟨hstroke', hfill'⟩

end Context

/-! ### An import to its end -/

/-- An import **that is not stopped**: the union of contours, what was asked for, and the lines. -/
structure ImportRun where
  union : ContourUnion Float
  options : ImportOptions
  lines : List (List Char)

namespace ImportRun

variable (r : ImportRun)

/-- The state before the line of this number. -/
def before (i : Nat) : Context :=
  (Context.initial r.options).after r.union (r.lines.take i)

/-- The layout in which the import ends. -/
def layout : Layout :=
  ((Context.initial r.options).after r.union r.lines).finish

/-- The colour in force before the line of this number: black, until a line sets another. -/
def colorAt (pick : Operator Float → Option (Color Float)) (i : Nat) : Color Float :=
  Context.lastColor pick .black (r.lines.take i)

/-- The polygons that the line of this number paints. -/
def paintedAt (i : Nat) : Batch Float :=
  match r.lines[i]? with
  | some line => (r.before i).linePainted r.union line
  | none => .empty

/-- The entries of the line that are clear: the fillings, if the fill colour is exactly
white. -/
def clearAt (i : Nat) : List Entry :=
  if (r.colorAt Operator.fillColor? i).isWhite then (r.paintedAt i).fill.map .clear else []

/-- The entries of the line that are solid: the other fillings, and then the outlines. -/
def solidAt (i : Nat) : List Entry :=
  (if (r.colorAt Operator.fillColor? i).isWhite then []
    else (r.paintedAt i).fill.map .ofSolid) ++ (r.paintedAt i).stroke.map .ofSolid

/-- The stroke colour that the line of this number sets. -/
def strokeColorSetAt (i : Nat) : Option (Color Float) :=
  r.lines[i]?.bind (Context.colorSet Operator.strokeColor?)

/-- What the line of this number asks the builder for. -/
def callsAt (i : Nat) : List Call :=
  match r.lines[i]? with
  | some line => (r.before i).lineCalls r.union line
  | none => []

/-- What the lines before this one ask the builder for. -/
def callsBefore (i : Nat) : List Call :=
  (List.range i).flatMap r.callsAt

/-- The deposits of a line. -/
def depositsAt (i : Nat) : List Deposit :=
  (r.before i).layers.deposits (r.callsAt i)

/-- The deposits of all lines, in the order of painting. -/
def deposits : List Deposit :=
  (List.range r.lines.length).flatMap r.depositsAt

theorem strokeColor_before (i : Nat) :
    (r.before i).strokeColor = r.colorAt Operator.strokeColor? i :=
  (Context.colors_after r.union _ _).1

theorem fillColor_before (i : Nat) : (r.before i).fillColor = r.colorAt Operator.fillColor? i :=
  (Context.colors_after r.union _ _).2

/-- A line leads from the state before it to the state before the next one. -/
theorem before_succ (i : Nat) :
    r.before (i + 1) =
      match r.lines[i]? with
      | some line => (r.before i).applyLine r.union line
      | none => r.before i := by
  unfold before
  rw [List.take_add_one, Context.after_append]
  cases r.lines[i]? with
  | none => rfl
  | some line => rfl

theorem layers_before_succ (i : Nat) :
    (r.before (i + 1)).layers = (r.before i).layers.run (r.callsAt i) := by
  rw [before_succ, callsAt]
  cases r.lines[i]? with
  | none => rfl
  | some line => exact Context.layers_applyLine r.union (r.before i) line

theorem strokeColor_before_succ (i : Nat) :
    (r.before (i + 1)).strokeColor = (r.strokeColorSetAt i).getD (r.before i).strokeColor := by
  rw [before_succ, strokeColorSetAt]
  cases r.lines[i]? with
  | none => rfl
  | some line => exact (Context.colors_applyLine r.union (r.before i) line).1

/-- A line sets a stroke colour, or it paints, or it does nothing to the layers. -/
theorem callsAt_cases (i : Nat) :
    (∃ color, r.strokeColorSetAt i = some color ∧ r.callsAt i = [.observe color] ∧
        r.paintedAt i = .empty) ∨
      (r.strokeColorSetAt i = none ∧ r.callsAt i = (r.before i).batchCalls (r.paintedAt i)) ∨
      (r.strokeColorSetAt i = none ∧ r.callsAt i = [] ∧ r.paintedAt i = .empty) := by
  unfold strokeColorSetAt callsAt paintedAt
  cases r.lines[i]? with
  | none => exact Or.inr (Or.inr ⟨rfl, rfl, rfl⟩)
  | some line =>
      simp only [Option.bind_some, Context.colorSet, Context.lineCalls, Context.linePainted]
      cases classify line with
      | none => exact Or.inr (Or.inr ⟨rfl, rfl, rfl⟩)
      | some op =>
          cases op with
          | strokeColor color => exact Or.inl ⟨color, rfl, rfl, rfl⟩
          | stroke | closeStroke | fill | fillStroke | closeFillStroke =>
              exact Or.inr (Or.inl ⟨rfl, rfl⟩)
          | _ => exact Or.inr (Or.inr ⟨rfl, rfl, rfl⟩)

theorem solidAt_of_isEmpty {i : Nat} (h : r.paintedAt i = .empty) : r.solidAt i = [] := by
  simp [solidAt, h, Batch.empty]

theorem clearAt_of_isEmpty {i : Nat} (h : r.paintedAt i = .empty) : r.clearAt i = [] := by
  simp [clearAt, h, Batch.empty]

/-- The calls of a line add its solid entries to the ordinary layers. -/
theorem flatMap_painted_callsAt (i : Nat) :
    (r.callsAt i).flatMap Call.painted = r.solidAt i := by
  rcases r.callsAt_cases i with ⟨color, -, hcalls, hempty⟩ | ⟨-, hcalls⟩ | ⟨-, hcalls, hempty⟩
  · rw [hcalls, r.solidAt_of_isEmpty hempty]
    rfl
  · rw [hcalls, solidAt, ← fillColor_before]
    simp only [Context.batchCalls, List.flatMap_cons, List.flatMap_nil, List.append_nil]
    cases (r.before i).fillColor.isWhite <;> rfl
  · rw [hcalls, r.solidAt_of_isEmpty hempty]
    rfl

/-- The calls of a line add its clear entries to the clear aperture. -/
theorem flatMap_cleared_callsAt (i : Nat) :
    (r.callsAt i).flatMap Call.cleared = r.clearAt i := by
  rcases r.callsAt_cases i with ⟨color, -, hcalls, hempty⟩ | ⟨-, hcalls⟩ | ⟨-, hcalls, hempty⟩
  · rw [hcalls, r.clearAt_of_isEmpty hempty]
    rfl
  · rw [hcalls, clearAt, ← fillColor_before]
    simp only [Context.batchCalls, List.flatMap_cons, List.flatMap_nil, List.append_nil]
    cases (r.before i).fillColor.isWhite with
    | true => exact List.append_nil _
    | false => rfl
  · rw [hcalls, r.clearAt_of_isEmpty hempty]
    rfl

/-- The deposits of a line hold its solid entries in order. -/
theorem flatMap_entries_depositsAt (i : Nat) :
    (r.depositsAt i).flatMap Deposit.entries = r.solidAt i := by
  rw [depositsAt, LayerBuilder.flatMap_entries_deposits, flatMap_painted_callsAt]

theorem callsBefore_succ (i : Nat) : r.callsBefore (i + 1) = r.callsBefore i ++ r.callsAt i := by
  rw [callsBefore, List.range_succ, List.flatMap_append, List.flatMap_singleton]
  rfl

/-- The layers before a line **are a run of the builder**. -/
theorem layers_before (i : Nat) :
    (r.before i).layers = (LayerBuilder.new r.options.startId).run (r.callsBefore i) := by
  induction i with
  | zero => rfl
  | succ i ih => rw [layers_before_succ, ih, callsBefore_succ, LayerBuilder.run_append]

theorem wellFormed_before (i : Nat) : (r.before i).layers.WellFormed := by
  rw [layers_before]
  exact LayerBuilder.wellFormed_run_new _ _

/-- What is asked for before line `i + m` is what is asked for before line `i` and by `m` more lines. -/
theorem callsBefore_add (i m : Nat) :
    r.callsBefore (i + m) =
      r.callsBefore i ++ (List.range m).flatMap fun k => r.callsAt (i + k) := by
  rw [callsBefore, List.range_add, List.flatMap_append, List.flatMap_map]
  rfl

theorem layers_before_add (i m : Nat) :
    (r.before (i + m)).layers =
      (r.before i).layers.run ((List.range m).flatMap fun k => r.callsAt (i + k)) := by
  rw [layers_before, layers_before, callsBefore_add, LayerBuilder.run_append]

theorem layout_eq :
    r.layout =
      ((LayerBuilder.new r.options.startId).run (r.callsBefore r.lines.length)).finish := by
  have hall : r.before r.lines.length = (Context.initial r.options).after r.union r.lines := by
    rw [before, List.take_length]
  rw [layout, Context.finish, ← hall, layers_before]

/-- The deposits of the lines are those of the run. -/
theorem deposits_eq :
    r.deposits =
      (LayerBuilder.new r.options.startId).deposits (r.callsBefore r.lines.length) := by
  unfold deposits
  induction r.lines.length with
  | zero => rfl
  | succ n ih =>
      rw [List.range_succ, List.flatMap_append, ih, List.flatMap_singleton, callsBefore_succ,
        LayerBuilder.deposits_append, ← layers_before]
      rfl

end ImportRun

/-- An import that is **not stopped** ends with the layout of its run. -/
theorem importWith_never (union : ContourUnion Float) {options : ImportOptions}
    (hsteps : options.curveSteps ≠ 0) (text : List Char) :
    (importWith union options (fun _ => false) text).1 =
      .ok (ImportRun.layout ⟨union, options, lines text⟩) := by
  have hlines : ∀ (ls : List (List Char)) (asked : Nat) (c : Context),
      (followLines union (fun _ => false) asked c ls).1 = .ok (c.after union ls) := by
    intro ls
    induction ls with
    | nil => exact fun asked c => rfl
    | cons line ls ih => exact fun asked c => ih (asked + 1) (c.applyLine union line)
  unfold importWith Context.start
  rw [if_neg hsteps]
  dsimp only
  rw [hlines]
  rfl

/-- With no steps for a curve an import fails before it asks whether to stop. -/
theorem importWith_of_curveSteps_eq_zero (union : ContourUnion Float) {options : ImportOptions}
    (hsteps : options.curveSteps = 0) (abort : AbortSignal) (text : List Char) :
    importWith union options abort text = (.error .noCurveSteps, 0) := by
  rw [importWith, Context.start, if_pos hsteps]

/-- The union that makes every contour a shape of its own, as it is for contours apart. -/
def separateShapes : ContourUnion Float :=
  fun contours _ => contours.map ([·])

end Artwork
