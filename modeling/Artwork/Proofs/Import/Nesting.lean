import Artwork.Proofs.Graphics.Nesting
import Artwork.Proofs.Import.Layering
import Artwork.Proofs.Text.Pieces

/-!
**Blocks that save and restore.**

What an operator does to the stack of states depends on nothing else in the state of an import, and
the operators that set the graphics state change nothing else.  So savings and restorings are paired
along any run of operators, and a block of state operators that begins with a saving and comes back
to its level only at its end leaves no trace, wherever in a text it stands.

Main definitions:

* `Context.follow` — the state after operators;
* `Operator.setsState`, `Block` — operators of the graphics state, and **blocks** of them.

Main results:

* `Context.graphics_follow` — the stack of states along a run of operators;
* `Context.follow_block` — a block changes nothing;
* `import_nesting` — **savings and restorings in a run and in a text**.
-/

set_option relaxedAutoImplicit false
set_option autoImplicit false

namespace Artwork

/-- The operator does nothing but **set the graphics state**: a matrix, a saving, a restoring or a
line width. -/
def Operator.setsState {K : Type} : Operator K → Bool
  | transform .. | save | restore | lineWidth _ => true
  | _ => false

/-- A **block** of state operators: it begins with a saving, stays above the level where it began,
and comes back to it only with its last operator. -/
structure Block {K : Type} (ops : List (Operator K)) : Prop where
  setsState : ∀ op ∈ ops, op.setsState = true
  opens : ∃ opening, ops.head? = some opening ∧ opening.saves = true
  level_pos : ∀ n < ops.length, 0 < n → 0 < level (ops.take n)
  level_eq : level ops = 0

/-- The last operator of a block restores what the first one saves. -/
theorem Block.exists_stillOpen {K : Type} {ops : List (Operator K)} (h : Block ops) :
    ∃ early, ops = early ++ [.restore] ∧ StillOpen [] early := by
  obtain ⟨opening, hhead, hsaves⟩ := h.opens
  have hone := Operator.nesting_of_saves hsaves
  obtain ⟨rest, rfl⟩ : ∃ rest, ops = opening :: rest := by
    cases ops with
    | nil => cases hhead
    | cons op rest => exact ⟨rest, by rw [Option.some.inj hhead]⟩
  have hlevel := h.level_eq
  rw [level_cons, hone] at hlevel
  rcases List.eq_nil_or_concat rest with rfl | ⟨inside, last, rfl⟩
  · cases hlevel
  rw [List.concat_eq_append] at h hlevel ⊢
  have hinside : ∀ n ≤ inside.length, 0 ≤ level (inside.take n) := by
    intro n hn
    have hpos := h.level_pos (n + 1) (by simp; omega) (by omega)
    rw [List.take_succ_cons, List.take_append_of_le_length hn, level_cons, hone] at hpos
    omega
  -- the nesting is above its start until the last operator, so this one goes down
  have hlast := hinside inside.length (Nat.le_refl _)
  rw [List.take_length] at hlast
  rw [level_append, level_cons, level_nil] at hlevel
  have hrestore : last = .restore := by
    rcases last.nesting_cases with h | h | h
    · rw [Operator.nesting_of_saves h] at hlevel
      omega
    · exact h
    · omega
  subst hrestore
  have hdown : (Operator.restore : Operator K).nesting = -1 := rfl
  refine ⟨opening :: inside, rfl, opening, inside, rfl, hsaves, by omega, fun n => ?_⟩
  rcases Nat.le_total n inside.length with hn | hn
  · exact hinside n hn
  · rw [List.take_of_length_le hn]
    exact hlast

namespace Context

variable (union : ContourUnion Float)

/-! ### Operators -/

/-- The state after operators. -/
def follow (c : Context) (ops : List (Operator Float)) : Context :=
  ops.foldl (apply union) c

theorem state_paint (c : Context) (painting : Painting) :
    (c.paint union painting).graphics = c.graphics ∧
      (c.paint union painting).factor = c.factor := by
  rw [paint_eq_match]
  split <;> exact ⟨rfl, rfl⟩

/-- What an operator does to the stack of states depends on nothing else. -/
theorem state_apply (c : Context) (op : Operator Float) :
    (c.apply union op).graphics = c.graphics.follow c.factor op ∧
      (c.apply union op).factor = c.factor := by
  cases op with
  | stroke => exact state_paint union c .stroke
  | closeStroke => exact state_paint union (c.construct .closePath) .stroke
  | fill rule => exact state_paint union c (.fill rule)
  | fillStroke rule => exact state_paint union c (.fillAndStroke rule)
  | closeFillStroke rule => exact state_paint union (c.construct .closePath) (.fillAndStroke rule)
  | _ => exact ⟨rfl, rfl⟩

/-- The stack of states **along a run of operators**. -/
theorem graphics_follow (c : Context) (ops : List (Operator Float)) :
    (c.follow union ops).graphics = c.graphics.followAll c.factor ops := by
  induction ops generalizing c with
  | nil => rfl
  | cons op ops ih =>
      obtain ⟨hgraphics, hfactor⟩ := state_apply union c op
      have hrest := ih (c.apply union op)
      rw [hgraphics, hfactor] at hrest
      exact hrest

/-- Operators of the graphics state change nothing else. -/
theorem follow_of_setsState (c : Context) {ops : List (Operator Float)}
    (h : ∀ op ∈ ops, op.setsState = true) :
    c.follow union ops = { c with graphics := c.graphics.followAll c.factor ops } := by
  induction ops generalizing c with
  | nil => rfl
  | cons op ops ih =>
      obtain ⟨hop, hops⟩ := List.forall_mem_cons.1 h
      have hstep : c.apply union op = { c with graphics := c.graphics.follow c.factor op } := by
        cases op with
        | transform | save | restore | lineWidth => rfl
        | _ => cases hop
      have hrest := ih (c.apply union op) hops
      rw [hstep] at hrest
      exact (congrArg (follow union · ops) hstep).trans hrest

/-- A block **changes nothing**. -/
theorem follow_block (c : Context) {ops : List (Operator Float)} (h : Block ops) :
    c.follow union ops = c := by
  rw [follow_of_setsState union c h.setsState]
  obtain ⟨early, rfl, hopen⟩ := h.exists_stillOpen
  rw [StateStack.followAll_restore_of_stillOpen _ _ hopen]
  rfl

/-! ### Lines -/

/-- Lines are followed by their operators. -/
theorem after_eq_follow (c : Context) (ls : List (List Char)) :
    c.after union ls = c.follow union (ls.filterMap classify) := by
  induction ls generalizing c with
  | nil => rfl
  | cons line ls ih =>
      have hrest := ih (c.applyLine union line)
      cases hline : classify line with
      | none =>
          have hsame : c.applyLine union line = c := by rw [applyLine, hline]
          rw [List.filterMap_cons_none hline]
          rw [hsame] at hrest
          exact (congrArg (after union · ls) hsame).trans hrest
      | some op =>
          have hstep : c.applyLine union line = c.apply union op := by rw [applyLine, hline]
          rw [List.filterMap_cons_some hline]
          rw [hstep] at hrest
          exact (congrArg (after union · ls) hstep).trans hrest

end Context

/-- A block that is inserted between two lines does not change the layout. -/
theorem importWith_block (union : ContourUnion Float) (options : ImportOptions)
    {as block bs : List Char} (hab : IsBoundary isLineBreak as bs)
    (hbefore : IsBoundary isLineBreak as block) (hafter : IsBoundary isLineBreak block bs)
    (hblock : Block ((lines block).filterMap classify)) :
    (importWith union options (fun _ => false) (as ++ (block ++ bs))).1 =
      (importWith union options (fun _ => false) (as ++ bs)).1 := by
  by_cases hsteps : options.curveSteps = 0
  · rw [importWith_of_curveSteps_eq_zero union hsteps,
      importWith_of_curveSteps_eq_zero union hsteps]
  have hne : block ≠ [] := by
    rintro rfl
    obtain ⟨opening, hhead, -⟩ := hblock.opens
    cases hhead
  have hwith : lines (as ++ (block ++ bs)) = lines as ++ (lines block ++ lines bs) := by
    unfold lines
    rw [(hbefore.append_right hne bs).runs_append, hafter.runs_append]
  have hwithout : lines (as ++ bs) = lines as ++ lines bs := hab.runs_append
  rw [importWith_never union hsteps, importWith_never union hsteps, hwith, hwithout]
  simp only [ImportRun.layout, Context.after_append]
  rw [Context.after_eq_follow union _ (lines block), Context.follow_block union _ hblock]

/-- **Savings and restorings are brackets.**  In every run of operators a restoring makes the stack
of states what it was before its partner, the latest saving that is still open.  Without one it takes
the latest of the states that were saved before the run and are left, and if there is none, it changes
nothing.  So a block does not change the layout, wherever it is inserted between two lines. -/
theorem import_nesting (union : ContourUnion Float) :
    (∀ (c : Context) (ops : List (Operator Float)),
        (∀ early, StillOpen early ops →
          (c.follow union (ops ++ [.restore])).graphics = (c.follow union early).graphics) ∧
        ((∀ early, ¬ StillOpen early ops) →
          (c.graphics.saved.drop (-level ops).toNat = [] →
            (c.follow union (ops ++ [.restore])).graphics = (c.follow union ops).graphics) ∧
          ∀ state rest, c.graphics.saved.drop (-level ops).toNat = state :: rest →
            (c.follow union (ops ++ [.restore])).graphics = ⟨state, rest⟩)) ∧
      ∀ (options : ImportOptions) (as block bs : List Char), IsBoundary isLineBreak as bs →
        IsBoundary isLineBreak as block → IsBoundary isLineBreak block bs →
        Block ((lines block).filterMap classify) →
        (importWith union options (fun _ => false) (as ++ (block ++ bs))).1 =
          (importWith union options (fun _ => false) (as ++ bs)).1 := by
  refine ⟨fun c ops => ⟨fun early hopen => ?_, fun hnone => ?_⟩,
    fun options as block bs hab hbefore hafter hblock =>
      importWith_block union options hab hbefore hafter hblock⟩
  · rw [Context.graphics_follow, Context.graphics_follow]
    exact StateStack.followAll_restore_of_stillOpen _ _ hopen
  · rw [Context.graphics_follow, Context.graphics_follow]
    exact StateStack.followAll_restore_of_not_stillOpen _ _ hnone

/-- A scaled line width in a block, between two lines of one path. -/
def scaledBlock : List Char :=
  "q 2 0 0 2 0 0 cm\n3 w\nq\nQ\nQ\n".toList

/-- The operators of `scaledBlock`. -/
def scaledOperators : List (Operator Float) :=
  [.transform true ⟨2, 0, 0, 2, 0, 0⟩, .lineWidth 3, .save, .restore, .restore]

/-- A restoring opens nothing. -/
theorem not_stillOpen_restore (early : List (Operator Float)) :
    ¬ StillOpen early [.restore] := by
  rintro ⟨opening, inside, heq, hsaves, -⟩
  cases early with
  | nil =>
      obtain ⟨rfl, -⟩ := List.cons.inj heq
      cases hsaves
  | cons op early =>
      have htail := (List.cons.inj heq).2
      simp at htail

theorem import_nesting_scaledBlock :
    let c := Context.initial {}
    let twice := c.follow separateShapes [.save, .save]
    StillOpen [] (scaledOperators.take 4) ∧
      (c.follow separateShapes (scaledOperators.take 4 ++ [.restore])).graphics = c.graphics ∧
      (c.follow separateShapes ([.restore] ++ [.restore])).graphics = c.graphics ∧
      twice.graphics.saved.drop 1 = [c.graphics.current] ∧
      (twice.follow separateShapes ([.restore] ++ [.restore])).graphics = c.graphics ∧
      Block ((lines scaledBlock).filterMap classify) ∧
      (importWith separateShapes {} (fun _ => false)
          ("0 0 m\n10 0 l\n".toList ++ (scaledBlock ++ "10 10 l\nf".toList))).1 =
        (importWith separateShapes {} (fun _ => false)
          ("0 0 m\n10 0 l\n".toList ++ "10 10 l\nf".toList)).1 := by
  have hopen : StillOpen [] (scaledOperators.take 4) := by
    refine ⟨_, _, rfl, rfl, by decide, fun n => ?_⟩
    match n with
    | 0 | 1 | 2 => decide
    | n + 3 => simp [level, Operator.nesting]
  have hblock : Block ((lines scaledBlock).filterMap classify) := by
    rw [show (lines scaledBlock).filterMap classify = scaledOperators by decide +kernel]
    exact ⟨by decide, ⟨_, rfl, rfl⟩, by decide, by decide⟩
  obtain ⟨hrun, htext⟩ := import_nesting separateShapes
  have hlone := (hrun (Context.initial {}) [.restore]).2 not_stillOpen_restore
  have htaken := (hrun ((Context.initial {}).follow separateShapes [.save, .save]) [.restore]).2
    not_stillOpen_restore
  have hbefore : "0 0 m\n10 0 l\n".toList.getLast? = some '\n' := by decide +kernel
  have hafter : scaledBlock.getLast? = some '\n' := by decide +kernel
  exact ⟨hopen, (hrun _ _).1 [] hopen, hlone.1 rfl, rfl, htaken.2 _ _ rfl, hblock,
    htext {} _ scaledBlock _ (isBoundary_of_getLast? hbefore rfl _)
      (isBoundary_of_getLast? hafter rfl _) (isBoundary_of_getLast? hbefore rfl _) hblock⟩

end Artwork
