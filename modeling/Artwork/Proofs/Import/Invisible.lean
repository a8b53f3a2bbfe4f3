import Artwork.Proofs.Import.Handover
import Artwork.Proofs.Import.Recognition
import Artwork.Proofs.Outline.Painting
import Artwork.Proofs.Path.Buffers

/-!
**Painting in vain.**

A subpath may have too few vertices, a pen no width, an outline no area.  Where nothing that is asked
for can be painted, there is no polygon to be sorted: no colour is noted, no layer begun and no name
given.  So a painting operator that paints in vain leaves nothing behind but the empty path, and with
the lines that have built this path it can be left out.

Main definitions:

* `Subpath.Fails`, `PendingPath.Fails` — **everything that is asked for** fails;
* `Context.PaintsInVain` — a painting operator without a polygon.

Main results:

* `PendingPath.isEmpty_paint_iff` — there is no polygon exactly if everything fails;
* `Context.apply_of_paintsInVain` — nothing is left of painting in vain;
* `Context.follow_filter_usesPath` — operators without those of the path;
* `painting_in_vain` — the state, **and the text without it**.
-/

set_option relaxedAutoImplicit false
set_option autoImplicit false

namespace Artwork

/-! ### When everything fails -/

section Fails

variable {K : Type} [Scalar K] [Trigonometric K] (union : ContourUnion K) (resolution : Resolution)
  (painting : Painting) (width : K)

instance decidableExistsError {ε α : Type} (result : Except ε α) :
    Decidable (∃ e, result = .error e) :=
  match result with
  | .error e => isTrue ⟨e, rfl⟩
  | .ok _ => isFalse nofun

/-- Filling the subpath fails if it is asked for, **and so does outlining it**. -/
def Subpath.Fails (closed : Bool) (s : Subpath K) : Prop :=
  (∀ rule ∈ painting.fillRule?,
      ∃ e, fillPolygon union rule (s.polyline resolution.curve) = .error e) ∧
    (painting.strokes = true →
      ∃ e, strokePolyline union (closed || s.kind == .rectangle) width resolution.circle
        (s.polyline resolution.curve) = .error e)

instance Subpath.decidableFails (closed : Bool) (s : Subpath K) :
    Decidable (s.Fails union resolution painting width closed) :=
  inferInstanceAs (Decidable (_ ∧ _))

/-- Everything that is asked for fails, **for every subpath**. -/
def PendingPath.Fails (path : PendingPath K) : Prop :=
  ∀ piece ∈ path.pieces, piece.1.Fails union resolution painting width piece.2

instance PendingPath.decidableFails (path : PendingPath K) :
    Decidable (path.Fails union resolution painting width) :=
  inferInstanceAs (Decidable (∀ piece ∈ path.pieces, _))

namespace Batch

omit [Scalar K] [Trigonometric K] in
theorem isEmpty_append (a b : Batch K) : (a ++ b).isEmpty = (a.isEmpty && b.isEmpty) := by
  obtain ⟨fill, stroke, skipped⟩ := a
  cases fill <;> cases stroke <;> simp [isEmpty]

omit [Scalar K] [Trigonometric K] in
theorem isEmpty_concat (batches : List (Batch K)) :
    (concat batches).isEmpty = batches.all isEmpty := by
  induction batches with
  | nil => rfl
  | cons b batches ih =>
      exact (isEmpty_append b (concat batches)).trans (congrArg (b.isEmpty && ·) ih)

omit [Scalar K] [Trigonometric K] in
theorem isEmpty_ofFill_iff {result : Except (GeometryError K) (List (Polygon K))}
    (h : ∀ polygons, result = .ok polygons → polygons ≠ []) :
    (ofFill result).isEmpty = true ↔ ∃ e, result = .error e := by
  cases result with
  | error e => exact iff_of_true rfl ⟨e, rfl⟩
  | ok polygons => simp [ofFill, addFill, empty, isEmpty, h polygons rfl]

omit [Scalar K] [Trigonometric K] in
theorem isEmpty_ofStroke_iff {result : Except (GeometryError K) (List (Polygon K))}
    (h : ∀ polygons, result = .ok polygons → polygons ≠ []) :
    (ofStroke result).isEmpty = true ↔ ∃ e, result = .error e := by
  cases result with
  | error e => exact iff_of_true rfl ⟨e, rfl⟩
  | ok polygons => simp [ofStroke, addStroke, empty, isEmpty, h polygons rfl]

end Batch

/-- A subpath gives no polygon exactly if **everything that is asked for fails**. -/
theorem Subpath.isEmpty_paint_iff (closed : Bool) (s : Subpath K) :
    (s.paint union resolution painting width closed).isEmpty = true ↔
      s.Fails union resolution painting width closed := by
  have hfill : ∀ rule, (s.paint union resolution (.fill rule) width closed).isEmpty = true ↔
      ∃ e, fillPolygon union rule (s.polyline resolution.curve) = .error e :=
    fun rule => Batch.isEmpty_ofFill_iff fun polygons h => ne_nil_of_fillPolygon h
  have hstroke : (s.paint union resolution .stroke width closed).isEmpty = true ↔
      ∃ e, strokePolyline union (closed || s.kind == .rectangle) width resolution.circle
        (s.polyline resolution.curve) = .error e :=
    Batch.isEmpty_ofStroke_iff fun polygons h => ne_nil_of_strokePolyline h
  cases painting with
  | stroke => simp [hstroke, Fails, Painting.fillRule?, Painting.strokes]
  | fill rule => simp [hfill, Fails, Painting.fillRule?, Painting.strokes]
  | fillAndStroke rule =>
      rw [paint_fillAndStroke, Batch.isEmpty_append, Bool.and_eq_true, hfill, hstroke]
      simp [Fails, Painting.fillRule?, Painting.strokes]
  | endPath =>
      -- nothing is asked for, and nothing is painted
      exact iff_of_true rfl ⟨by simp [Painting.fillRule?], by simp [Painting.strokes]⟩

/-- A path gives no polygon exactly if **everything that is asked for fails**. -/
theorem PendingPath.isEmpty_paint_iff (path : PendingPath K) :
    (path.paint union resolution painting width).isEmpty = true ↔
      path.Fails union resolution painting width := by
  rw [PendingPath.paint_eq_pieces, Batch.isEmpty_concat, List.all_map, List.all_eq_true]
  exact forall₂_congr fun piece _ =>
    piece.1.isEmpty_paint_iff union resolution painting width piece.2

end Fails

namespace Path

variable {K : Type} [Scalar K]

/-- A path that hands nothing over does not do so after closing either. -/
theorem pending?_closePath_eq_none {path : Path K} (h : path.pending? = none) :
    path.closePath.pending? = none := by
  unfold pending? at h ⊢
  rw [active_closePath]
  cases hactive : path.active with
  | none => rfl
  | some kind =>
      rw [hactive, Option.map_some, Option.filter_eq_none_iff] at h
      have hempty : (path.held kind).isEmpty = true := by simpa using h _ rfl
      rw [Option.map_some, held_closePath hactive, Option.filter_eq_none_iff]
      rintro _ ⟨⟩
      rw [PendingPath.isEmpty, Bool.and_eq_true, List.isEmpty_iff, Option.isNone_iff_eq_none]
        at hempty
      simp [PendingPath.isEmpty, hempty]

end Path

namespace Context

variable (union : ContourUnion Float)

/-! ### Painting in vain -/

/-- The operator paints without a polygon: there is no path to be painted, or everything that is
asked for fails, for every subpath. -/
def PaintsInVain (c : Context) (op : Operator Float) : Prop :=
  ∃ painting ∈ op.painting?.map Prod.snd,
    c.path.pending? = none ∨
      ∀ path ∈ (c.path.run (c.graphics.stepsOf c.factor op)).pending?,
        path.Fails union c.resolution painting c.graphics.current.lineWidth

/-- A batch without a polygon leaves the state as it is. -/
theorem addBatch_of_isEmpty (c : Context) {batch : Batch Float} (h : batch.isEmpty = true) :
    c.addBatch batch = c := by
  obtain ⟨hfill, hstroke⟩ := Bool.and_eq_true_iff.1 h
  unfold addBatch
  dsimp only
  rw [LayerBuilder.classify_of_isEmpty hfill, LayerBuilder.classify_of_isEmpty hstroke]

theorem paint_of_fails (c : Context) {painting : Painting}
    (h : ∀ path ∈ c.path.pending?,
      path.Fails union c.resolution painting c.graphics.current.lineWidth) :
    c.paint union painting = c.withPath .empty := by
  rw [paint_eq_match]
  cases hpending : c.path.pending? with
  | none => rfl
  | some path =>
      refine addBatch_of_isEmpty _ ?_
      exact (path.isEmpty_paint_iff union _ painting _).2 (h path hpending)

/-- Nothing is left of **painting in vain** but the empty path. -/
theorem apply_of_paintsInVain {c : Context} {op : Operator Float} (h : c.PaintsInVain union op) :
    c.apply union op = c.withPath .empty := by
  obtain ⟨painting, hpainting, hvain⟩ := h
  have hfails : ∀ path ∈ (c.path.run (c.graphics.stepsOf c.factor op)).pending?,
      path.Fails union c.resolution painting c.graphics.current.lineWidth := by
    rcases hvain with hnone | hfails
    · have hstill : (c.path.run (c.graphics.stepsOf c.factor op)).pending? = none := by
        cases op with
        | closeStroke | closeFillStroke => exact Path.pending?_closePath_eq_none hnone
        | construct => cases hpainting
        | _ => exact hnone
      rw [hstill]
      nofun
    · exact hfails
  cases op with
  | stroke | fill | fillStroke =>
      cases hpainting
      exact paint_of_fails union c hfails
  | closeStroke | closeFillStroke =>
      cases hpainting
      exact paint_of_fails union (c.construct .closePath) hfails
  | _ => cases hpainting

/-! ### Operators without those of the path -/

/-- As long as the path does not end, the operators that **do not concern it** lead to the same
state, but for the path. -/
theorem follow_filter_usesPath (c : Context) {ops : List (Operator Float)}
    (h : ∀ op ∈ ops, op.ends = false) :
    c.follow union (ops.filter (!·.usesPath)) = (c.follow union ops).withPath c.path := by
  induction ops generalizing c with
  | nil => rfl
  | cons op ops ih =>
      obtain ⟨hop, hops⟩ := List.forall_mem_cons.1 h
      rw [follow_cons]
      cases op with
      | construct step =>
          rw [List.filter_cons_of_neg (by simp [Operator.usesPath]), ih c hops]
          -- a step of construction gives the same state with another path
          exact (congrArg (withPath · c.path) (follow_withPath union c _ hops)).symm
      | endPath | stroke | closeStroke | fill | fillStroke | closeFillStroke => cases hop
      | strokeColor | fillColor | transform | save | restore | lineWidth =>
          rw [List.filter_cons_of_pos (by simp [Operator.usesPath]), follow_cons, ih _ hops]
          rfl

/-- A path that is painted in vain can be left out, with the operator that paints it. -/
theorem follow_paintsInVain {c : Context} (hc : c.path = .empty) {ops : List (Operator Float)}
    (hops : ∀ op ∈ ops, op.ends = false) {op : Operator Float}
    (h : (c.follow union ops).PaintsInVain union op) :
    (c.follow union ops).apply union op = c.follow union (ops.filter (!·.usesPath)) := by
  rw [follow_filter_usesPath union c hops, hc, apply_of_paintsInVain union h]

/-- There is no path at the beginning, nor after an operator that ends it. -/
theorem path_follow_of_ends (options : ImportOptions) {ops : List (Operator Float)}
    (h : ∀ op ∈ ops.getLast?, op.ends = true) :
    ((initial options).follow union ops).path = .empty := by
  rcases List.eq_nil_or_concat ops with rfl | ⟨ops, op, rfl⟩
  · rfl
  · rw [List.concat_eq_append] at h ⊢
    rw [follow_append]
    exact path_apply_of_ends union _ (h op List.getLast?_concat)

end Context

/-! ### Lines -/

/-- The line concerns the path. -/
def lineUsesPath (line : List Char) : Bool :=
  (classify line).any Operator.usesPath

theorem filterMap_filter_lineUsesPath (ls : List (List Char)) :
    (ls.filter (!lineUsesPath ·)).filterMap classify =
      (ls.filterMap classify).filter (!·.usesPath) := by
  rw [List.filterMap_filter, List.filter_filterMap]
  refine List.filterMap_congr fun line _ => ?_
  unfold lineUsesPath
  cases classify line with
  | none => rfl
  | some op => cases hop : op.usesPath <;> simp [Option.filter, hop]

/-- **Painting in vain is invisible.**  If there is no path to be painted, or if everything that is
asked for fails for every subpath, a painting operator leaves the state as it was, except that there
is no path any more.  So its line can be left out of a text, with the lines that build its path since
the latest line that has ended one: the import has the same result. -/
theorem painting_in_vain (union : ContourUnion Float) :
    (∀ (c : Context) (op : Operator Float), c.PaintsInVain union op →
        c.apply union op = c.withPath .empty) ∧
      ∀ (options : ImportOptions) (text shorter : List Char) (as block bs : List (List Char))
        (line : List Char) (op : Operator Float),
        lines text = as ++ (block ++ line :: bs) →
        lines shorter = as ++ (block.filter (!lineUsesPath ·) ++ bs) →
        (∀ last ∈ (as.filterMap classify).getLast?, last.ends = true) →
        (∀ l ∈ block, ∀ inner ∈ classify l, inner.ends = false) →
        classify line = some op →
        ((Context.initial options).after union (as ++ block)).PaintsInVain union op →
        (importWith union options (fun _ => false) text).1 =
          (importWith union options (fun _ => false) shorter).1 := by
  refine ⟨fun c op h => Context.apply_of_paintsInVain union h, ?_⟩
  intro options text shorter as block bs line op htext hshorter hbefore hblock hline hvain
  have hops : ∀ inner ∈ block.filterMap classify, inner.ends = false :=
    List.forall_mem_filterMap.2 hblock
  have hempty := Context.path_follow_of_ends union options hbefore
  rw [Context.after_eq_follow, List.filterMap_append, Context.follow_append] at hvain
  refine importWith_of_follow_eq ?_
  simp only [htext, hshorter, List.filterMap_append, List.filterMap_cons_some hline,
    filterMap_filter_lineUsesPath, Context.follow_append, Context.follow_cons]
  rw [Context.follow_paintsInVain union hempty hops hvain]

/-- A single point, on which all painting fails, with a colour between its lines. -/
def lonePoint : List (List Char) :=
  ["5 5 m".toList, "0 1 0 RG".toList, "h".toList]

theorem painting_in_vain_lonePoint :
    let before : List (List Char) := ["0 0 9 9 re".toList, "f".toList]
    let c := (Context.initial {}).after separateShapes (before ++ lonePoint)
    c.PaintsInVain separateShapes (.closeFillStroke .nonzero) ∧
      c.apply separateShapes (.closeFillStroke .nonzero) = c.withPath .empty ∧
      (importWith separateShapes {} (fun _ => false)
          "0 0 9 9 re\nf\n5 5 m\n0 1 0 RG\nh\nb\n20 20 9 9 re\nS".toList).1 =
        (importWith separateShapes {} (fun _ => false)
          "0 0 9 9 re\nf\n0 1 0 RG\n20 20 9 9 re\nS".toList).1 := by
  intro before c
  have hvain : c.PaintsInVain separateShapes (.closeFillStroke .nonzero) :=
    ⟨_, rfl, Or.inr (by decide +kernel)⟩
  obtain ⟨hstate, htext⟩ := painting_in_vain separateShapes
  refine ⟨hvain, hstate c _ hvain, ?_⟩
  exact htext {} _ _ before lonePoint ["20 20 9 9 re".toList, "S".toList] "b".toList _
    (by decide +kernel) (by decide +kernel) (by decide +kernel) (by decide +kernel)
    (by decide +kernel) hvain

end Artwork
