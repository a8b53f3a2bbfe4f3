import Artwork.Proofs.Import.Clipping
import Artwork.Proofs.Path.Handover

/-!
**Painting uses up the path.**

Whatever a painting operator is handed, the path is empty afterwards, and so it is after the operator
that gives the path up.  Of the path that was there, only the layers can tell: no operator looks at
them, so whatever is built and painted later is built and painted as after any other path.

Main definitions:

* `Context.SameButPath`, `Context.SameButLayers` — states that differ in one field at most.

Main results:

* `Context.SameButLayers.painted_eq`, `Context.SameButLayers.apply` — no operator looks at the
  layers;
* `Context.SameButPath.apply_endPath`, `Context.SameButPath.apply` — what is left of the path **after
  its end**;
* `Context.painting_uses_up_path` — painting **uses up the path**.
-/

set_option relaxedAutoImplicit false
set_option autoImplicit false

namespace Artwork

namespace Context

variable (union : ContourUnion Float)

/-! ### States that differ in one field -/

/-- The state with other layers. -/
def withLayers (c : Context) (layers : LayerBuilder) : Context :=
  { c with layers := layers }

/-- The states differ at most in the path. -/
def SameButPath (c c' : Context) : Prop :=
  c.withPath c'.path = c'

/-- The states differ at most in the layers. -/
def SameButLayers (c c' : Context) : Prop :=
  c.withLayers c'.layers = c'

/-- Building changes nothing but the path. -/
theorem sameButPath_construct (c : Context) (steps : List (Construction Float)) :
    c.SameButPath (c.follow union (steps.map .construct)) := by
  induction steps generalizing c with
  | nil => rfl
  | cons step steps ih => exact ih (c.construct step)

/-! ### No operator looks at the layers -/

theorem SameButLayers.exists_eq {c c' : Context} (h : c.SameButLayers c') :
    ∃ layers, c' = c.withLayers layers :=
  ⟨c'.layers, h.symm⟩

theorem sameButLayers_paint (c : Context) (layers : LayerBuilder) (painting : Painting) :
    (c.paint union painting).SameButLayers ((c.withLayers layers).paint union painting) := by
  unfold SameButLayers
  rw [paint_eq_match, paint_eq_match]
  dsimp only [withLayers]
  cases c.path.pending? <;> rfl

namespace SameButLayers

variable {c c' : Context} (h : c.SameButLayers c')

include h

theorem path_eq : c.path = c'.path := by
  obtain ⟨layers, rfl⟩ := h.exists_eq
  rfl

/-- An operator **paints the same** on all layers. -/
theorem painted_eq (op : Operator Float) : c.painted union op = c'.painted union op := by
  obtain ⟨layers, rfl⟩ := h.exists_eq
  cases op <;> rfl

/-- It asks the layers for the same. -/
theorem calls_eq (op : Operator Float) : c.calls union op = c'.calls union op := by
  obtain ⟨layers, rfl⟩ := h.exists_eq
  cases op <;> rfl

/-- It leaves **the same behind**, but for the layers. -/
theorem apply (op : Operator Float) :
    (c.apply union op).SameButLayers (c'.apply union op) := by
  obtain ⟨layers, rfl⟩ := h.exists_eq
  cases op with
  | stroke => exact sameButLayers_paint union c layers .stroke
  | closeStroke => exact sameButLayers_paint union (c.construct .closePath) layers .stroke
  | fill rule => exact sameButLayers_paint union c layers (.fill rule)
  | fillStroke rule => exact sameButLayers_paint union c layers (.fillAndStroke rule)
  | closeFillStroke rule =>
      exact sameButLayers_paint union (c.construct .closePath) layers (.fillAndStroke rule)
  | _ => rfl

theorem follow (ops : List (Operator Float)) :
    (c.follow union ops).SameButLayers (c'.follow union ops) := by
  induction ops generalizing c c' with
  | nil => exact h
  | cons op ops ih => exact ih (h.apply union op)

end SameButLayers

/-! ### After the end of the path -/

theorem paint_eq (c : Context) (painting : Painting) :
    c.paint union painting = (c.withPath .empty).withLayers (c.paint union painting).layers := by
  rw [paint_eq_match]
  split <;> rfl

/-- Painting empties the path, and changes nothing else but the layers. -/
theorem apply_eq_of_painting (c : Context) {op : Operator Float} (h : op.painting?.isSome = true) :
    c.apply union op = (c.withPath .empty).withLayers (c.apply union op).layers := by
  cases op with
  | stroke => exact paint_eq union c .stroke
  | closeStroke => exact paint_eq union (c.construct .closePath) .stroke
  | fill rule => exact paint_eq union c (.fill rule)
  | fillStroke rule => exact paint_eq union c (.fillAndStroke rule)
  | closeFillStroke rule => exact paint_eq union (c.construct .closePath) (.fillAndStroke rule)
  | _ => cases h

/-- After the end of the path there is none. -/
theorem path_apply_of_ends (c : Context) {op : Operator Float} (h : op.ends = true) :
    (c.apply union op).path = .empty := by
  by_cases hop : op.painting?.isSome = true
  · rw [apply_eq_of_painting union c hop]
    rfl
  · cases op with
    | endPath => rfl
    | _ => exact absurd h hop

/-- From a state with the empty path on, the path is one that some construction steps build. -/
theorem exists_run_path {c : Context} (h : c.path = .empty) (ops : List (Operator Float)) :
    ∃ steps, (c.follow union ops).path = Path.empty.run steps := by
  -- up to the end of the path the steps add up, and then they begin anew
  suffices hrun : ∀ built, c.path = Path.empty.run built →
      ∃ steps, (c.follow union ops).path = Path.empty.run steps from hrun [] h
  clear h
  induction ops generalizing c with
  | nil => exact fun built hbuilt => ⟨built, hbuilt⟩
  | cons op ops ih =>
      intro built hbuilt
      rw [follow_cons]
      cases hends : op.ends with
      | true => exact ih [] (path_apply_of_ends union c hends)
      | false =>
          refine ih (built ++ c.graphics.stepsOf c.factor op) ?_
          rw [Path.run_append, ← hbuilt]
          exact congrArg Context.path (apply_withPath union c c.path hends)

namespace SameButPath

variable {c c' : Context} (h : c.SameButPath c')

include h

/-- States that differ in the path alone are **the same** once it is given up. -/
theorem apply_endPath : c.apply union .endPath = c'.apply union .endPath := by
  rw [← h]
  rfl

/-- States that differ in the path alone differ **in the layers alone** once it is painted. -/
theorem apply {op : Operator Float} (hop : op.painting?.isSome = true) :
    (c.apply union op).SameButLayers (c'.apply union op) := by
  have hempty : c.withPath .empty = c'.withPath .empty := by
    rw [← h]
    rfl
  unfold SameButLayers
  rw [apply_eq_of_painting union c hop, apply_eq_of_painting union c' hop, hempty]
  rfl

end SameButPath

/-- **Painting uses up the path.**  A painting operator is handed the subpaths of the active kind, in
the order in which the steps have closed them, and then the open one, if there is any; with what is
left over these are all subpaths that are not empty.  Afterwards the path is empty.  So states that
differ in the path, however that was built, are the same once it is given up.  Once it is painted
they differ in the layers alone, and whatever comes then, every operator finds the same path, paints
the same and asks for the same. -/
theorem painting_uses_up_path :
    (∀ (options : ImportOptions) (ops : List (Operator Float)),
        ∃ steps, ((initial options).follow union ops).path = Path.empty.run steps) ∧
      (∀ steps : List (Construction Float),
        let path := (Path.empty : Path Float).run steps
        (∀ pending, path.takeForPaint.pending = some pending ↔
          ∃ kind, path.active = some kind ∧
            pending = ⟨kind, Path.empty.closings kind steps,
              (some (path.openSubpath kind)).filter (!·.isEmpty)⟩ ∧
            (pending.closed ≠ [] ∨ pending.opened ≠ none)) ∧
          path.handed.length + path.takeForPaint.leftOver = path.stored.countP (!·.isEmpty) ∧
          path.takeForPaint.rest = .empty) ∧
      (∀ (c : Context) (op : Operator Float), op.ends = true →
        (c.apply union op).path = .empty) ∧
      (∀ (c : Context) (steps : List (Construction Float)),
        c.SameButPath (c.follow union (steps.map .construct))) ∧
      ∀ c c' : Context, c.SameButPath c' →
        c.apply union .endPath = c'.apply union .endPath ∧
          ∀ op, op.painting?.isSome = true → ∀ ops : List (Operator Float),
            let d := (c.apply union op).follow union ops
            let d' := (c'.apply union op).follow union ops
            d.SameButLayers d' ∧ d.path = d'.path ∧
              ∀ next, d.painted union next = d'.painted union next ∧
                d.calls union next = d'.calls union next := by
  refine ⟨fun options => exists_run_path union rfl,
    fun steps => ⟨fun _ => Path.pending?_run_iff steps, Path.length_handed_add_leftOver steps,
      Path.rest_takeForPaint _⟩,
    fun c op => path_apply_of_ends union c, sameButPath_construct union,
    fun c c' h => ⟨h.apply_endPath union, fun op hop ops => ?_⟩⟩
  have hd := (h.apply union hop).follow union ops
  exact ⟨hd, hd.path_eq, fun next => ⟨hd.painted_eq union next, hd.calls_eq union next⟩⟩

/-- A closed polyline, a rectangle that the next one closes, and this one, which stays open. -/
def lineAndRectangles : List (Construction Float) :=
  [.moveTo ⟨0, 0⟩, .lineTo ⟨10, 0⟩, .closePath, .rectangle ⟨0, 0⟩ ⟨10, 10⟩,
    .rectangle ⟨20, 20⟩ ⟨10, 10⟩]

theorem painting_uses_up_path_lineAndRectangles :
    let path := (Path.empty : Path Float).run lineAndRectangles
    let c := initial {}
    let c' := c.follow separateShapes (lineAndRectangles.map .construct)
    let d := c.apply separateShapes (.fill .nonzero)
    let d' := c'.apply separateShapes (.fill .nonzero)
    (path.handed.length = 2 ∧ path.takeForPaint.leftOver = 1 ∧
        path.handed.length + path.takeForPaint.leftOver = path.stored.countP (!·.isEmpty)) ∧
      c.SameButPath c' ∧
      c.apply separateShapes .endPath = c'.apply separateShapes .endPath ∧
      d.SameButLayers d' ∧ d.layers.current.size ≠ d'.layers.current.size ∧
      d.painted separateShapes .stroke = d'.painted separateShapes .stroke := by
  intro path c c' d d'
  obtain ⟨-, hhanded, -, hbuild, hsame⟩ := painting_uses_up_path separateShapes
  have hpath : c.SameButPath c' := hbuild c lineAndRectangles
  obtain ⟨hgivenUp, hpainted⟩ := hsame c c' hpath
  obtain ⟨hlayers, -, hnext⟩ := hpainted (.fill .nonzero) rfl []
  exact ⟨⟨by decide +kernel, by decide +kernel, (hhanded lineAndRectangles).2.1⟩, hpath, hgivenUp,
    hlayers, by decide +kernel, (hnext .stroke).1⟩

end Context

end Artwork
