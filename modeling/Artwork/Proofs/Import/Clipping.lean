import Artwork.Proofs.Import.Nesting
import Artwork.Proofs.Path.Resumption
import Artwork.Proofs.Text.Pieces

/-!
**Clips that end the path.**

The word that ends the path may stand on the line of a clip, where it is not heard: the path goes on
with what the clip has kept.  As a line of its own it gives up the whole path.  Up to the next
operator that paints, the two imports differ in nothing but the path.  So they have one layout if
this operator is handed the same subpaths in both, or if there is none.

Main definitions:

* `Operator.ends` — the path is empty after the operator;
* `StateStack.drawn` — the construction steps of operators;
* `Context.handed` — the subpaths that an operator **is handed**;
* `NextPainting` — the next operator that paints the path.

Main results:

* `Context.follow_withPath` — up to the end of the path, operators do the same to every path;
* `Context.finish_follow_eq` — when two contexts with different paths end in one layout;
* `import_clipEnd` — a clip that ends the path, **and two lines in its place**.
-/

set_option relaxedAutoImplicit false
set_option autoImplicit false

namespace Artwork

/-- After the operator the path is empty. -/
def Operator.ends {K : Type} : Operator K → Bool
  | .endPath => true
  | op => op.painting?.isSome

namespace StateStack

variable {K : Type} [Scalar K]

/-- The construction steps of an operator, in output coordinates. -/
def stepsOf (factor : K) (s : StateStack K) : Operator K → List (Construction K)
  | .construct step => [step.map s.current factor]
  | .closeStroke | .closeFillStroke _ => [.closePath]
  | _ => []

/-- The construction steps of operators, each with the graphics state in force. -/
def drawn (factor : K) : StateStack K → List (Operator K) → List (Construction K)
  | _, [] => []
  | s, op :: ops => s.stepsOf factor op ++ drawn factor (s.follow factor op) ops

theorem drawn_append (factor : K) (s : StateStack K) (ops later : List (Operator K)) :
    s.drawn factor (ops ++ later) =
      s.drawn factor ops ++ (s.followAll factor ops).drawn factor later := by
  induction ops generalizing s with
  | nil => rfl
  | cons op ops ih =>
      rw [List.cons_append, drawn, ih, drawn, List.append_assoc]
      rfl

end StateStack

/-- After `early`, in which the path does not end, the operator is the next one that paints it. -/
structure NextPainting (ops early : List (Operator Float)) (op : Operator Float) : Prop where
  isPrefix : early ++ [op] <+: ops
  goesOn : ∀ e ∈ early, e.ends = false
  paints : op.painting?.isSome = true

theorem Operator.ends_of_painting? {K : Type} {op : Operator K} (h : op.painting?.isSome = true) :
    op.ends = true := by
  cases op with
  | stroke | closeStroke | fill | fillStroke | closeFillStroke => rfl
  | _ => cases h

/-- There is only one next operator that paints. -/
theorem NextPainting.unique {ops early early' : List (Operator Float)} {op op' : Operator Float}
    (h : NextPainting ops early op) (h' : NextPainting ops early' op') :
    early = early' ∧ op = op' := by
  have hends := Operator.ends_of_painting? h.paints
  have hends' := Operator.ends_of_painting? h'.paints
  induction ops generalizing early early' with
  | nil => simpa using h.isPrefix
  | cons e ops ih =>
      obtain ⟨hbegins, hgoesOn, hpaints⟩ := h
      obtain ⟨hbegins', hgoesOn', hpaints'⟩ := h'
      cases early with
      | nil =>
          obtain ⟨rfl, -⟩ := List.cons_prefix_cons.1 hbegins
          cases early' with
          | nil => exact ⟨rfl, (List.cons_prefix_cons.1 hbegins').1.symm⟩
          | cons e' early' =>
              obtain ⟨rfl, -⟩ := List.cons_prefix_cons.1 hbegins'
              rw [hgoesOn' e' (List.mem_cons_self ..)] at hends
              cases hends
      | cons e₁ early =>
          obtain ⟨rfl, htail⟩ := List.cons_prefix_cons.1 hbegins
          obtain ⟨hfirst, hrest⟩ := List.forall_mem_cons.1 hgoesOn
          cases early' with
          | nil =>
              obtain ⟨rfl, -⟩ := List.cons_prefix_cons.1 hbegins'
              rw [hfirst] at hends'
              cases hends'
          | cons e₂ early' =>
              obtain ⟨rfl, htail'⟩ := List.cons_prefix_cons.1 hbegins'
              obtain ⟨-, hrest'⟩ := List.forall_mem_cons.1 hgoesOn'
              obtain ⟨rfl, hop⟩ := ih ⟨htail, hrest, hpaints⟩ ⟨htail', hrest', hpaints'⟩
              exact ⟨rfl, hop⟩

namespace Context

variable (union : ContourUnion Float)

/-- The subpaths that an operator **is handed**, if it paints. -/
def handed (c : Context) (op : Operator Float) : List (Subpath Float) :=
  if op.painting?.isSome then (c.path.run (c.graphics.stepsOf c.factor op)).handed else []

/-! ### The same operators for different paths -/

/-- The state with another path. -/
def withPath (c : Context) (path : Path Float) : Context :=
  { c with path := path }

theorem follow_cons (c : Context) (op : Operator Float) (ops : List (Operator Float)) :
    c.follow union (op :: ops) = (c.apply union op).follow union ops := rfl

theorem follow_append (c : Context) (ops later : List (Operator Float)) :
    c.follow union (ops ++ later) = (c.follow union ops).follow union later :=
  List.foldl_append ..

/-- An operator that does not end the path adds its steps to whatever path there is. -/
theorem apply_withPath (c : Context) (path : Path Float) {op : Operator Float}
    (h : op.ends = false) :
    (c.withPath path).apply union op =
      (c.apply union op).withPath (path.run (c.graphics.stepsOf c.factor op)) := by
  cases op with
  | endPath | stroke | closeStroke | fill | fillStroke | closeFillStroke => cases h
  | _ => rfl

/-- Operators that do not end the path do the same **to every path**. -/
theorem follow_withPath (c : Context) (path : Path Float) {ops : List (Operator Float)}
    (h : ∀ op ∈ ops, op.ends = false) :
    (c.withPath path).follow union ops =
      (c.follow union ops).withPath (path.run (c.graphics.drawn c.factor ops)) := by
  induction ops generalizing c path with
  | nil => rfl
  | cons op ops ih =>
      obtain ⟨hop, hops⟩ := List.forall_mem_cons.1 h
      obtain ⟨hgraphics, hfactor⟩ := state_apply union c op
      rw [follow_cons, follow_cons, apply_withPath union c path hop, ih _ _ hops, hgraphics, hfactor,
        StateStack.drawn, Path.run_append]

theorem paint_withPath (c : Context) {path path' : Path Float}
    (h : path.pending? = path'.pending?) (painting : Painting) :
    (c.withPath path).paint union painting = (c.withPath path').paint union painting := by
  rw [paint_eq_match, paint_eq_match]
  unfold withPath
  dsimp only
  rw [h]

/-- An operator that ends the path makes the same of two paths, if it gives them up or is handed the
same. -/
theorem apply_withPath_of_ends (c : Context) {path path' : Path Float} {op : Operator Float}
    (hends : op.ends = true)
    (h : op.painting?.isSome = true →
      (path.run (c.graphics.stepsOf c.factor op)).pending? =
        (path'.run (c.graphics.stepsOf c.factor op)).pending?) :
    (c.withPath path).apply union op = (c.withPath path').apply union op := by
  cases op with
  | endPath => rfl
  | stroke => exact paint_withPath union c (h rfl) .stroke
  | fill rule => exact paint_withPath union c (h rfl) (.fill rule)
  | fillStroke rule => exact paint_withPath union c (h rfl) (.fillAndStroke rule)
  | closeStroke => exact paint_withPath union c (h rfl) .stroke
  | closeFillStroke rule => exact paint_withPath union c (h rfl) (.fillAndStroke rule)
  | _ => cases hends

/-- Contexts with different paths end in **one layout**, if the next operator that paints is handed
the same. -/
theorem finish_follow_eq (c : Context) {path path' : Path Float} {ops : List (Operator Float)}
    (h : ∀ early op, NextPainting ops early op →
      (path.run (c.graphics.drawn c.factor (early ++ [op]))).pending? =
        (path'.run (c.graphics.drawn c.factor (early ++ [op]))).pending?) :
    ((c.withPath path).follow union ops).finish = ((c.withPath path').follow union ops).finish := by
  induction ops generalizing c path path' with
  | nil => rfl
  | cons op ops ih =>
      rw [follow_cons, follow_cons]
      cases hends : op.ends with
      | true =>
          -- the path is empty afterwards, whatever it was
          rw [apply_withPath_of_ends union c hends fun hpaints => ?_]
          have hnow := h [] op ⟨⟨ops, rfl⟩, nofun, hpaints⟩
          rwa [List.nil_append, StateStack.drawn, StateStack.drawn, List.append_nil] at hnow
      | false =>
          obtain ⟨hgraphics, hfactor⟩ := state_apply union c op
          rw [apply_withPath union c path hends, apply_withPath union c path' hends]
          refine ih _ fun early next hnext => ?_
          have hlater := h (op :: early) next
            ⟨List.cons_prefix_cons.2 ⟨rfl, hnext.isPrefix⟩,
              List.forall_mem_cons.2 ⟨hends, hnext.goesOn⟩, hnext.paints⟩
          rw [hgraphics, hfactor, ← Path.run_append, ← Path.run_append]
          exact hlater

theorem factor_follow (c : Context) (ops : List (Operator Float)) :
    (c.follow union ops).factor = c.factor := by
  induction ops generalizing c with
  | nil => rfl
  | cons op ops ih => rw [follow_cons, ih, (state_apply union c op).2]

/-- What the next operator that paints is handed, from any path on. -/
theorem handed_follow_withPath (c : Context) (path : Path Float) {ops early : List (Operator Float)}
    {op : Operator Float} (h : NextPainting ops early op) :
    ((c.withPath path).follow union early).handed op =
      (path.run (c.graphics.drawn c.factor (early ++ [op]))).handed := by
  have hlast : ((c.follow union early).graphics.stepsOf (c.follow union early).factor op) =
      (c.graphics.followAll c.factor early).drawn c.factor [op] := by
    rw [graphics_follow, factor_follow, StateStack.drawn, StateStack.drawn, List.append_nil]
  rw [follow_withPath union c path h.goesOn, handed, if_pos h.paints, StateStack.drawn_append,
    Path.run_append, ← hlast]
  rfl

end Context

/-! ### Lines -/

/-- The words of a clip, with or without the end of the path, make the same operator. -/
theorem classifyWords_of_clip {keyword : List Char} (h : keyword ∈ Form.clip.keywords) :
    classifyWords Form.priority [keyword, ['n']] = some (.construct .clip) ∧
      classify keyword = some (.construct .clip) ∧ keyword ≠ [] ∧
      ∀ a ∈ keyword, isLineBreak a = false := by
  have hcases : keyword = ['W'] ∨ keyword = ['W', '*'] := by simpa [Form.keywords] using h
  rcases hcases with rfl | rfl
  · exact ⟨by decide +kernel, by decide +kernel, nofun, by simp [isLineBreak]⟩
  · exact ⟨by decide +kernel, by decide +kernel, nofun, by simp [isLineBreak]⟩

theorem classify_endPath : classify ['n'] = some .endPath := by decide +kernel

theorem lines_piece {as line bs : List Char} (h : IsPiece isLineBreak as line bs)
    (hne : line ≠ []) : lines (as ++ (line ++ bs)) = lines as ++ line :: lines bs := by
  unfold lines
  rw [h.runs_append, consRun, if_neg (by simpa using hne)]

/-- The word that ends the path, on a line of its own after another one. -/
theorem lines_endPath {bs : List Char} (h : ∀ a, bs.head? = some a → isLineBreak a = true) :
    lines ('\n' :: 'n' :: bs) = ['n'] :: lines bs := by
  have hpiece : IsPiece isLineBreak [] ['n'] bs := ⟨nofun, by simp [isLineBreak], h⟩
  exact (runs_separator (by decide) _).trans (lines_piece hpiece (List.cons_ne_nil _ _))

/-- The layout of an import that is not stopped, by the operator of one of its lines and those
after it. -/
theorem importWith_piece (union : ContourUnion Float) {options : ImportOptions}
    (hsteps : options.curveSteps ≠ 0) {as line bs : List Char} (h : IsPiece isLineBreak as line bs)
    (hne : line ≠ []) {op : Operator Float} (hop : classify line = some op) :
    (importWith union options (fun _ => false) (as ++ (line ++ bs))).1 =
      .ok ((((Context.initial options).after union (lines as)).apply union op).follow union
        ((lines bs).filterMap classify)).finish := by
  rw [importWith_never union hsteps, lines_piece h hne, ImportRun.layout, Context.after_append,
    Context.after_eq_follow union _ (line :: lines bs), List.filterMap_cons_some hop,
    Context.follow_cons]

/-- **A clip that ends the path, and two lines in its place.**  On the line of a clip the end of the
path is not heard.  So the next operator that paints is handed what the clip has kept of the active
kind and then what was built since, as long as this begins anew; after two lines it is handed only the
latter.  If nothing of this kind was kept, both imports have one layout. -/
theorem import_clipEnd (union : ContourUnion Float) (options : ImportOptions)
    (hsteps : options.curveSteps ≠ 0) {as line bs keyword : List Char}
    (hline : IsPiece isLineBreak as line bs) (hkeyword : keyword ∈ Form.clip.keywords)
    (hwords : words line = [keyword, ['n']]) :
    let c := (Context.initial options).after union (lines as)
    let joined := c.apply union (.construct .clip)
    let apart := joined.apply union .endPath
    let steps := fun ops => c.graphics.drawn c.factor ops
    (importWith union options (fun _ => false) (as ++ (line ++ bs))).1 =
        (importWith union options (fun _ => false) (as ++ (keyword ++ bs))).1 ∧
      (∀ early op, NextPainting ((lines bs).filterMap classify) early op →
        joined.path.BeginsAnew (steps (early ++ [op])) →
          (joined.follow union early).handed op =
            joined.path.kept (joined.path.run (steps (early ++ [op]))).active ++
              (apart.follow union early).handed op) ∧
      ((∀ early op, NextPainting ((lines bs).filterMap classify) early op →
          joined.path.BeginsAnew (steps (early ++ [op])) ∧
            joined.path.kept (joined.path.run (steps (early ++ [op]))).active = []) →
        (importWith union options (fun _ => false) (as ++ (line ++ bs))).1 =
          (importWith union options (fun _ => false) (as ++ (keyword ++ '\n' :: 'n' :: bs))).1) := by
  intro c joined apart steps
  obtain ⟨hjoined, halone, hne, hplain⟩ := classifyWords_of_clip hkeyword
  rw [← hwords] at hjoined
  have hlineNe : line ≠ [] := by
    rintro rfl
    cases hwords
  have hclipped : joined.path.Clipped := Path.clipped_clip c.path
  have hwith := importWith_piece union hsteps hline hlineNe hjoined
  refine ⟨?_, fun early op hnext hanew => ?_, fun h => ?_⟩
  · rw [hwith, importWith_piece union hsteps ⟨hline.before, hplain, hline.after⟩ hne halone]
  · have hkept := Context.handed_follow_withPath union c joined.path hnext
    have hnew := Context.handed_follow_withPath union c .empty hnext
    have hrun := hclipped.handed_run hanew
    rw [← hkept, ← hnew] at hrun
    exact hrun
  · have hapart : IsPiece isLineBreak as keyword ('\n' :: 'n' :: bs) :=
      ⟨hline.before, hplain, by rintro a ⟨⟩; rfl⟩
    rw [hwith, importWith_piece union hsteps hapart hne halone, lines_endPath hline.after,
      List.filterMap_cons_some classify_endPath, Context.follow_cons]
    refine congrArg Except.ok ?_
    refine Context.finish_follow_eq union c fun early op hnext => ?_
    obtain ⟨hanew, hnone⟩ := h early op hnext
    exact (hclipped.pending?_run_iff hanew).2 hnone

/-- A rectangle, before the line of a clip. -/
def oneRectangle : List Char :=
  "0 0 10 10 re\n".toList

/-- A clip and the end of the path on one line. -/
def clipEndLine : List Char :=
  ['W', ' ', 'n']

/-- Another rectangle, which is filled. -/
def anotherRectangle : List Char :=
  "\n20 20 10 10 re\nf\n".toList

/-- The last character of a text and the first of another one are line breaks around the clip. -/
theorem isPiece_clipEndLine {as bs : List Char} (has : as.getLast? = some '\n')
    (hbs : bs.head? = some '\n') : IsPiece isLineBreak as clipEndLine bs where
  before a ha := by
    rw [has] at ha
    cases ha
    rfl
  piece := by simp [clipEndLine, isLineBreak]
  after a ha := by
    rw [hbs] at ha
    cases ha
    rfl

theorem import_clipEnd_oneRectangle :
    let c := (Context.initial {}).after separateShapes (lines oneRectangle)
    let joined := c.apply separateShapes (.construct .clip)
    let apart := joined.apply separateShapes .endPath
    let early := [.construct (.rectangle ⟨20, 20⟩ ⟨10, 10⟩)]
    ({} : ImportOptions).curveSteps ≠ 0 ∧
      IsPiece isLineBreak oneRectangle clipEndLine anotherRectangle ∧
      words clipEndLine = [['W'], ['n']] ∧
      (joined.follow separateShapes early).handed (.fill .nonzero) =
        (apart.follow separateShapes early).handed (.fill .nonzero) ∧
      (importWith separateShapes {} (fun _ => false)
          (oneRectangle ++ (clipEndLine ++ anotherRectangle))).1 =
        (importWith separateShapes {} (fun _ => false)
          (oneRectangle ++ (['W'] ++ '\n' :: 'n' :: anotherRectangle))).1 := by
  intro c joined apart early
  have hpiece : IsPiece isLineBreak oneRectangle clipEndLine anotherRectangle :=
    isPiece_clipEndLine (by decide +kernel) (by decide +kernel)
  have hwords : words clipEndLine = [['W'], ['n']] := by decide +kernel
  have hops : (lines anotherRectangle).filterMap classify = early ++ [.fill .nonzero] := by
    decide +kernel
  have hempty :
      let path := (((Context.initial {}).after separateShapes (lines oneRectangle)).apply
        separateShapes (.construct .clip)).path
      path.lines = .empty ∧ path.curves = .empty ∧ path.rectangles = .empty := by decide +kernel
  obtain ⟨hlines, hcurves, hrectangles⟩ :
      joined.path.lines = .empty ∧ joined.path.curves = .empty ∧ joined.path.rectangles = .empty :=
    hempty
  have hanew : joined.path.BeginsAnew (c.graphics.drawn c.factor (early ++ [.fill .nonzero])) :=
    ⟨congrArg Buffer.opened hlines, congrArg Buffer.opened hcurves⟩
  have hkept : joined.path.kept
      (joined.path.run (c.graphics.drawn c.factor (early ++ [.fill .nonzero]))).active = [] :=
    congrArg (fun b => b.close.closed.map Subpath.rectangle) hrectangles
  have hnext : NextPainting (early ++ [.fill .nonzero]) early (.fill .nonzero) :=
    ⟨List.prefix_refl _, by simp [early, Operator.ends, Operator.painting?], rfl⟩
  have hall := import_clipEnd separateShapes {} (by decide) hpiece (List.mem_cons_self ..) hwords
  rw [hops] at hall
  refine ⟨by decide, hpiece, hwords, ?_, hall.2.2 fun early' op hnext' => ?_⟩
  · have hhanded := hall.2.1 early (.fill .nonzero) hnext hanew
    rwa [hkept, List.nil_append] at hhanded
  · obtain ⟨rfl, rfl⟩ := hnext.unique hnext'
    exact ⟨hanew, hkept⟩

/-- Two rectangles, before the line of a clip. -/
def twoRectangles : List Char :=
  "0 0 10 10 re\n20 20 10 10 re\n".toList

/-- A filling, after it. -/
def filling : List Char :=
  "\nf\n".toList

/-- Of two rectangles the clip keeps the first, which **is filled** if the end of the path stands on
the line of the clip.  In two lines nothing is filled. -/
theorem import_clipEnd_ne_twoRectangles :
    IsPiece isLineBreak twoRectangles clipEndLine filling ∧
      words clipEndLine = [['W'], ['n']] ∧
      (lines filling).filterMap classify = [.fill .nonzero] ∧
      ((((Context.initial {}).after separateShapes (lines twoRectangles)).apply separateShapes
        (.construct .clip)).handed (.fill .nonzero)).length = 1 ∧
      (importWith separateShapes {} (fun _ => false)
          (twoRectangles ++ (clipEndLine ++ filling))).1 ≠
        (importWith separateShapes {} (fun _ => false)
          (twoRectangles ++ (['W'] ++ '\n' :: 'n' :: filling))).1 := by
  have hjoined : (importWith separateShapes {} (fun _ => false)
      (twoRectangles ++ (clipEndLine ++ filling))).1.toOption.map Table.size = some 1 := by
    decide +kernel
  have hapart : (importWith separateShapes {} (fun _ => false)
      (twoRectangles ++ (['W'] ++ '\n' :: 'n' :: filling))).1.toOption.map Table.size =
        some 0 := by decide +kernel
  refine ⟨isPiece_clipEndLine (by decide +kernel) (by decide +kernel), by decide +kernel,
    by decide +kernel, by decide +kernel, fun hsame => ?_⟩
  rw [hsame, hapart] at hjoined
  cases hjoined

end Artwork
