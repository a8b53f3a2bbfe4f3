import Artwork.Proofs.Import.Cancellation
import Artwork.Proofs.Import.Clipping

/-!
**Lines that may change places.**

A colour is read when a path is painted, and so is a line width; a line width is saved and restored
with the matrix, and a matrix scales it.  Nothing else looks at them.  So a line that sets one of them
may be moved across the lines that neither set it nor read it, and the import is the same.

Main definitions:

* `Operator.Passes` — a colour or a line width, **and an operator that does not heed it**.

Main results:

* `Context.apply_comm` — the two of them in either order;
* `Context.follow_passes` — across a run of operators;
* `import_commuting` — **across a run of lines**.
-/

set_option relaxedAutoImplicit false
set_option autoImplicit false

namespace Artwork

/-- The first operator sets a colour or the line width, and **the second one does not heed it**. -/
inductive Operator.Passes {K : Type} : Operator K → Operator K → Prop
  | strokeColor (color : Color K) {op : Operator K} (hsets : op.strokeColor? = none)
      (hpaints : op.painting? = none) : Passes (.strokeColor color) op
  | fillColor (color : Color K) {op : Operator K} (hsets : op.fillColor? = none)
      (hpaints : op.painting? = none) : Passes (.fillColor color) op
  | lineWidth (width : K) {op : Operator K} (hsets : op.setsState = false)
      (hpaints : op.painting? = none) : Passes (.lineWidth width) op

/-- Colours pass all operators of the graphics state. -/
theorem Operator.passes_of_setsState {K : Type} {mover op : Operator K}
    (hmover : mover.strokeColor?.isSome = true ∨ mover.fillColor?.isSome = true)
    (h : op.setsState = true) : mover.Passes op := by
  cases mover with
  | strokeColor color =>
      cases op with
      | transform | save | restore | lineWidth => exact .strokeColor color rfl rfl
      | _ => cases h
  | fillColor color =>
      cases op with
      | transform | save | restore | lineWidth => exact .fillColor color rfl rfl
      | _ => cases h
  | _ => rcases hmover with hmover | hmover <;> cases hmover

namespace Context

variable (union : ContourUnion Float)

/-- A colour or a line width and an operator that does not heed it, **in either order**. -/
theorem apply_comm (c : Context) {mover op : Operator Float} (h : mover.Passes op) :
    (c.apply union mover).apply union op = (c.apply union op).apply union mover := by
  cases h with
  | strokeColor color hsets hpaints =>
      cases op with
      | strokeColor => cases hsets
      | stroke | closeStroke | fill | fillStroke | closeFillStroke => cases hpaints
      | _ => rfl
  | fillColor color hsets hpaints =>
      cases op with
      | fillColor => cases hsets
      | stroke | closeStroke | fill | fillStroke | closeFillStroke => cases hpaints
      | _ => rfl
  | lineWidth width hsets hpaints =>
      cases op with
      | transform | save | restore | lineWidth => cases hsets
      | stroke | closeStroke | fill | fillStroke | closeFillStroke => cases hpaints
      | construct step =>
          -- operands are mapped by the matrix, which the width leaves as it is
          cases step <;> rfl
      | _ => rfl

/-- A colour or a line width moves **across a run of operators** that do not heed it. -/
theorem follow_passes (c : Context) {mover : Operator Float} {ops : List (Operator Float)}
    (h : ∀ op ∈ ops, mover.Passes op) :
    (c.apply union mover).follow union ops = (c.follow union ops).apply union mover := by
  induction ops generalizing c with
  | nil => rfl
  | cons op ops ih =>
      obtain ⟨hop, hops⟩ := List.forall_mem_cons.1 h
      rw [follow_cons, follow_cons, apply_comm union c hop, ih _ hops]

end Context

/-- **Colours and line widths commute with what does not heed them.**  In every state it makes no
difference whether an operator that sets a colour or the line width comes before one that it passes,
or after it: a colour passes what neither sets the same colour nor paints, and a width passes what
does not set the graphics state and does not paint.  So its line may be moved across any run of such
lines, and the import is the same, whatever the caller answers. -/
theorem import_commuting (union : ContourUnion Float) :
    (∀ (c : Context) (mover op : Operator Float), mover.Passes op →
        (c.apply union mover).apply union op = (c.apply union op).apply union mover) ∧
      (∀ (options : ImportOptions) (text moved : List Char) (as block bs : List (List Char))
        (line : List Char) (mover : Operator Float),
        lines text = as ++ line :: (block ++ bs) → lines moved = as ++ (block ++ line :: bs) →
        classify line = some mover →
        (∀ l ∈ block, ∀ op ∈ classify l, mover.Passes op) →
        ∀ abort, importWith union options abort text = importWith union options abort moved) ∧
      ∀ (mover op : Operator Float),
        mover.strokeColor?.isSome = true ∨ mover.fillColor?.isSome = true →
        op.setsState = true → mover.Passes op := by
  refine ⟨fun c _ _ h => Context.apply_comm union c h, ?_,
    fun _ _ hmover h => Operator.passes_of_setsState hmover h⟩
  intro options text moved as block bs line mover htext hmoved hline hblock
  have hops : ∀ op ∈ block.filterMap classify, mover.Passes op :=
    List.forall_mem_filterMap.2 hblock
  refine importWith_of_after_eq ?_ ?_
  · rw [htext, hmoved]
    simp only [List.length_append, List.length_cons]
    omega
  · simp only [htext, hmoved, Context.after_eq_follow, List.filterMap_append,
      List.filterMap_cons_some hline, Context.follow_append, Context.follow_cons]
    rw [Context.follow_passes union _ hops]

/-- The lines of a scaled rectangle. -/
def scaledRectangle : List (List Char) :=
  ["q 2 0 0 2 0 0 cm".toList, "0 0 9 9 re".toList, "3 w".toList, "Q".toList]

theorem import_commuting_scaledRectangle :
    let c := Context.initial {}
    let green : Operator Float := .strokeColor ⟨0, 1, 0⟩
    (c.apply separateShapes (.lineWidth 3)).apply separateShapes (.construct .closePath) =
        (c.apply separateShapes (.construct .closePath)).apply separateShapes (.lineWidth 3) ∧
      green.Passes .restore ∧
      ∀ abort,
        importWith separateShapes {} abort
            "f\n0 1 0 RG\nq 2 0 0 2 0 0 cm\n0 0 9 9 re\n3 w\nQ\nS".toList =
          importWith separateShapes {} abort
            "f\nq 2 0 0 2 0 0 cm\n0 0 9 9 re\n3 w\nQ\n0 1 0 RG\nS".toList := by
  intro c green
  obtain ⟨hstate, htext, hcolor⟩ := import_commuting separateShapes
  refine ⟨hstate c _ _ (.lineWidth 3 rfl rfl), hcolor green .restore (Or.inl rfl) rfl, ?_⟩
  have hops : ∀ l ∈ scaledRectangle, ∀ op ∈ classify l,
      op.strokeColor? = none ∧ op.painting? = none := by decide +kernel
  refine htext {} _ _ ["f".toList] scaledRectangle ["S".toList] "0 1 0 RG".toList green
    (by decide +kernel) (by decide +kernel) (by decide +kernel) fun l hl op hop => ?_
  obtain ⟨hsets, hpaints⟩ := hops l hl op hop
  exact .strokeColor _ hsets hpaints

end Artwork
