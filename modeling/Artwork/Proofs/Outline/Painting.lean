import Artwork.Outline
import Mathlib.Data.List.Basic

/-!
**Subpaths are painted apart.**

A painting operator goes through the subpaths of a path, and for each of them it fills, outlines, or
does both.  Each of these gives polygons or fails for one reason.  Nothing of it depends on the other
subpaths, nor filling on outlining, so a subpath that cannot be painted disturbs no other one.

Main definitions:

* `Subpath.paint` — the batch of one subpath alone;
* `PendingPath.parts` — the subpaths of a path, **each as a path of its own**;
* `OneOrOther` — polygons, or one reason why there are none;
* `PendingPath.PaintsApart` — what is known of painting a path by its parts.

Main results:

* `Batch.addPiece_eq` — a painted subpath adds its own batch to those before it;
* `PendingPath.paint_eq_parts` — the batch of a path is made of the batches of its parts;
* `Subpath.paint_fillAndStroke` — a subpath that is filled and outlined is filled, and outlined;
* `PendingPath.length_skipped_paint` — how many reasons there are;
* `PendingPath.paintsApart` — **every path is painted apart**.
-/

set_option relaxedAutoImplicit false
set_option autoImplicit false

namespace Artwork

variable {K : Type}

/-- Polygons and no reason, or no polygon and one reason. -/
def OneOrOther (polygons : List (Polygon K)) (reasons : List (GeometryError K)) : Prop :=
  polygons ≠ [] ∧ reasons = [] ∨ polygons = [] ∧ ∃ reason, reasons = [reason]

/-! ### Batches -/

namespace Batch

instance : Append (Batch K) where
  append a b := ⟨a.fill ++ b.fill, a.stroke ++ b.stroke, a.skipped ++ b.skipped⟩

@[simp] theorem fill_append (a b : Batch K) : (a ++ b).fill = a.fill ++ b.fill := rfl

@[simp] theorem stroke_append (a b : Batch K) : (a ++ b).stroke = a.stroke ++ b.stroke := rfl

@[simp] theorem skipped_append (a b : Batch K) : (a ++ b).skipped = a.skipped ++ b.skipped := rfl

@[simp] theorem append_empty (b : Batch K) : b ++ empty = b :=
  Batch.ext (List.append_nil _) (List.append_nil _) (List.append_nil _)

@[simp] theorem empty_append (b : Batch K) : empty ++ b = b := rfl

theorem append_assoc (a b c : Batch K) : a ++ b ++ c = a ++ (b ++ c) :=
  Batch.ext (List.append_assoc ..) (List.append_assoc ..) (List.append_assoc ..)

/-- The batch of one filling. -/
def ofFill (result : Except (GeometryError K) (List (Polygon K))) : Batch K :=
  empty.addFill result

/-- The batch of one outlining. -/
def ofStroke (result : Except (GeometryError K) (List (Polygon K))) : Batch K :=
  empty.addStroke result

theorem addFill_eq (b : Batch K) (result : Except (GeometryError K) (List (Polygon K))) :
    b.addFill result = b ++ ofFill result := by
  cases result with
  | ok polygons => exact Batch.ext rfl (List.append_nil _).symm (List.append_nil _).symm
  | error e => exact Batch.ext (List.append_nil _).symm (List.append_nil _).symm rfl

theorem addStroke_eq (b : Batch K) (result : Except (GeometryError K) (List (Polygon K))) :
    b.addStroke result = b ++ ofStroke result := by
  cases result with
  | ok polygons => exact Batch.ext (List.append_nil _).symm rfl (List.append_nil _).symm
  | error e => exact Batch.ext (List.append_nil _).symm (List.append_nil _).symm rfl

/-- Batches one after the other. -/
def concat (batches : List (Batch K)) : Batch K :=
  batches.foldr (· ++ ·) empty

theorem fill_concat (batches : List (Batch K)) : (concat batches).fill = batches.flatMap fill := by
  induction batches with
  | nil => rfl
  | cons b batches ih => exact congrArg (b.fill ++ ·) ih

theorem stroke_concat (batches : List (Batch K)) :
    (concat batches).stroke = batches.flatMap stroke := by
  induction batches with
  | nil => rfl
  | cons b batches ih => exact congrArg (b.stroke ++ ·) ih

theorem skipped_concat (batches : List (Batch K)) :
    (concat batches).skipped = batches.flatMap skipped := by
  induction batches with
  | nil => rfl
  | cons b batches ih => exact congrArg (b.skipped ++ ·) ih

theorem oneOrOther_ofFill {result : Except (GeometryError K) (List (Polygon K))}
    (h : ∀ polygons, result = .ok polygons → polygons ≠ []) :
    OneOrOther (ofFill result).fill (ofFill result).skipped := by
  cases result with
  | error e => exact Or.inr ⟨rfl, e, rfl⟩
  | ok polygons => exact Or.inl ⟨h polygons rfl, rfl⟩

theorem oneOrOther_ofStroke {result : Except (GeometryError K) (List (Polygon K))}
    (h : ∀ polygons, result = .ok polygons → polygons ≠ []) :
    OneOrOther (ofStroke result).stroke (ofStroke result).skipped := by
  cases result with
  | error e => exact Or.inr ⟨rfl, e, rfl⟩
  | ok polygons => exact Or.inl ⟨h polygons rfl, rfl⟩

theorem stroke_ofFill (result : Except (GeometryError K) (List (Polygon K))) :
    (ofFill result).stroke = [] := by
  cases result <;> rfl

theorem fill_ofStroke (result : Except (GeometryError K) (List (Polygon K))) :
    (ofStroke result).fill = [] := by
  cases result <;> rfl

end Batch

theorem OneOrOther.length_eq {polygons : List (Polygon K)} {reasons : List (GeometryError K)}
    (h : OneOrOther polygons reasons) : reasons.length = if polygons.isEmpty then 1 else 0 := by
  rcases h with ⟨hne, rfl⟩ | ⟨rfl, reason, rfl⟩
  · simp [hne]
  · rfl

/-! ### One subpath -/

section Union

variable [Scalar K]

theorem ne_nil_of_unite {union : ContourUnion K} {contours : List (List (Point K))}
    {rule : FillRule} {polygons : List (Polygon K)} (h : unite union contours rule = .ok polygons) :
    polygons ≠ [] := by
  unfold unite at h
  split at h
  · cases h
  · next hne =>
      cases h
      exact hne

theorem ne_nil_of_fillPolygon {union : ContourUnion K} {rule : FillRule} {ps : List (Point K)}
    {polygons : List (Polygon K)} (h : fillPolygon union rule ps = .ok polygons) :
    polygons ≠ [] := by
  unfold fillPolygon at h
  dsimp only at h
  split at h
  · cases h
  · exact ne_nil_of_unite h

theorem ne_nil_of_strokePolyline [Trigonometric K] {union : ContourUnion K} {closed : Bool}
    {width : K} {circleSteps : Nat} {ps : List (Point K)} {polygons : List (Polygon K)}
    (h : strokePolyline union closed width circleSteps ps = .ok polygons) : polygons ≠ [] := by
  unfold strokePolyline at h
  dsimp only at h
  split at h
  · cases h
  · split at h
    · cases h
    · exact ne_nil_of_unite h

end Union

variable [Scalar K] [Trigonometric K]

/-- The batch of one subpath alone. -/
def Subpath.paint (union : ContourUnion K) (resolution : Resolution) (painting : Painting) (width : K)
    (closed : Bool) (s : Subpath K) : Batch K :=
  Batch.empty.addPiece union resolution painting width (s, closed)

variable (union : ContourUnion K) (resolution : Resolution) (width : K)

/-- A painted subpath adds **its own batch** at the end of what is there. -/
theorem Batch.addPiece_eq (painting : Painting) (b : Batch K) (piece : Subpath K × Bool) :
    b.addPiece union resolution painting width piece =
      b ++ piece.1.paint union resolution painting width piece.2 := by
  cases painting with
  | stroke => exact b.addStroke_eq _
  | fill rule => exact b.addFill_eq _
  | fillAndStroke rule =>
      simp only [Subpath.paint, addPiece, Painting.fillRule?, Painting.strokes, if_true]
      rw [addStroke_eq, addFill_eq, addStroke_eq, addFill_eq, empty_append, append_assoc]
  | endPath => exact b.append_empty.symm

namespace Subpath

variable (closed : Bool) (s : Subpath K)

theorem paint_fill (rule : FillRule) :
    s.paint union resolution (.fill rule) width closed =
      .ofFill (fillPolygon union rule (s.polyline resolution.curve)) := rfl

theorem paint_stroke :
    s.paint union resolution .stroke width closed =
      .ofStroke (strokePolyline union (closed || s.kind == .rectangle) width resolution.circle
        (s.polyline resolution.curve)) := rfl

/-- The batch of a subpath that is filled and outlined is that of its filling followed by that of its
outline. -/
theorem paint_fillAndStroke (rule : FillRule) :
    s.paint union resolution (.fillAndStroke rule) width closed =
      s.paint union resolution (.fill rule) width closed ++
        s.paint union resolution .stroke width closed :=
  Batch.addStroke_eq _ _

/-- Subpaths that are filled alike and outlined alike are painted alike. -/
theorem paint_congr (painting : Painting) {s s' : Subpath K} {closed closed' : Bool}
    (hfill : ∀ rule, fillPolygon union rule (s.polyline resolution.curve) =
      fillPolygon union rule (s'.polyline resolution.curve))
    (hstroke : strokePolyline union (closed || s.kind == .rectangle) width resolution.circle
        (s.polyline resolution.curve) =
      strokePolyline union (closed' || s'.kind == .rectangle) width resolution.circle
        (s'.polyline resolution.curve)) :
    s.paint union resolution painting width closed =
      s'.paint union resolution painting width closed' := by
  cases painting with
  | endPath => rfl
  | stroke => rw [paint_stroke, paint_stroke, hstroke]
  | fill rule => rw [paint_fill, paint_fill, hfill]
  | fillAndStroke rule =>
      rw [paint_fillAndStroke, paint_fillAndStroke, paint_fill, paint_fill, paint_stroke,
        paint_stroke, hfill, hstroke]

theorem stroke_paint_fill (rule : FillRule) :
    (s.paint union resolution (.fill rule) width closed).stroke = [] := by
  rw [paint_fill, Batch.stroke_ofFill]

theorem fill_paint_stroke : (s.paint union resolution .stroke width closed).fill = [] := by
  rw [paint_stroke, Batch.fill_ofStroke]

theorem fill_paint_fillAndStroke (rule : FillRule) :
    (s.paint union resolution (.fillAndStroke rule) width closed).fill =
      (s.paint union resolution (.fill rule) width closed).fill := by
  rw [paint_fillAndStroke, Batch.fill_append, fill_paint_stroke, List.append_nil]

theorem stroke_paint_fillAndStroke (rule : FillRule) :
    (s.paint union resolution (.fillAndStroke rule) width closed).stroke =
      (s.paint union resolution .stroke width closed).stroke := by
  rw [paint_fillAndStroke, Batch.stroke_append, stroke_paint_fill, List.nil_append]

/-- A filling gives polygons, or one reason why there are none. -/
theorem oneOrOther_paint_fill (rule : FillRule) :
    OneOrOther (s.paint union resolution (.fill rule) width closed).fill
      (s.paint union resolution (.fill rule) width closed).skipped := by
  rw [paint_fill]
  exact Batch.oneOrOther_ofFill fun polygons h => ne_nil_of_fillPolygon h

/-- An outline gives polygons, or one reason why there are none. -/
theorem oneOrOther_paint_stroke :
    OneOrOther (s.paint union resolution .stroke width closed).stroke
      (s.paint union resolution .stroke width closed).skipped := by
  rw [paint_stroke]
  exact Batch.oneOrOther_ofStroke fun polygons h => ne_nil_of_strokePolyline h

end Subpath

/-! ### All subpaths -/

namespace PendingPath

/-- The path of one subpath alone. -/
def alone (kind : SubpathKind) : Subpath K × Bool → PendingPath K
  | (s, true) => ⟨kind, [s], none⟩
  | (s, false) => ⟨kind, [], some s⟩

/-- The subpaths of a path, **each as a path of its own**. -/
def parts (path : PendingPath K) : List (PendingPath K) :=
  path.pieces.map (alone path.kind)

/-- What is known of painting a path by its parts. -/
structure PaintsApart (path : PendingPath K) : Prop where
  /-- The batch of the path is made of the batches of its parts, in their order. -/
  fill_eq : ∀ painting, (path.paint union resolution painting width).fill =
    path.parts.flatMap fun part => (part.paint union resolution painting width).fill
  stroke_eq : ∀ painting, (path.paint union resolution painting width).stroke =
    path.parts.flatMap fun part => (part.paint union resolution painting width).stroke
  skipped_eq : ∀ painting, (path.paint union resolution painting width).skipped =
    path.parts.flatMap fun part => (part.paint union resolution painting width).skipped
  /-- A part that is filled gives fillings, or one reason why there are none. -/
  fill_part : ∀ part ∈ path.parts, ∀ rule,
    (part.paint union resolution (.fill rule) width).stroke = [] ∧
      OneOrOther (part.paint union resolution (.fill rule) width).fill
        (part.paint union resolution (.fill rule) width).skipped
  /-- A part that is outlined gives outlines, or one reason why there are none. -/
  stroke_part : ∀ part ∈ path.parts,
    (part.paint union resolution .stroke width).fill = [] ∧
      OneOrOther (part.paint union resolution .stroke width).stroke
        (part.paint union resolution .stroke width).skipped
  /-- A part that is filled and outlined is filled, and outlined then. -/
  both_part : ∀ part ∈ path.parts, ∀ rule,
    part.paint union resolution (.fillAndStroke rule) width =
      part.paint union resolution (.fill rule) width ++ part.paint union resolution .stroke width
  /-- There are as many reasons as there are parts without fillings and parts without outlines, as
  far as they are asked for. -/
  length_skipped : ∀ painting, (path.paint union resolution painting width).skipped.length =
    (if painting.fills then
        path.parts.countP fun part => (part.paint union resolution painting width).fill.isEmpty
      else 0) +
    if painting.strokes then
      path.parts.countP fun part => (part.paint union resolution painting width).stroke.isEmpty
    else 0
  /-- Filling does not depend on outlining, nor outlining on filling. -/
  fill_both : ∀ rule, (path.paint union resolution (.fillAndStroke rule) width).fill =
    (path.paint union resolution (.fill rule) width).fill
  stroke_both : ∀ rule, (path.paint union resolution (.fillAndStroke rule) width).stroke =
    (path.paint union resolution .stroke width).stroke

theorem paint_alone (painting : Painting) (kind : SubpathKind) (piece : Subpath K × Bool) :
    (alone kind piece).paint union resolution painting width =
      piece.1.paint union resolution painting width piece.2 := by
  obtain ⟨s, closed⟩ := piece
  cases closed <;> rfl

/-- Painting adds the batches of the pieces, in their order, to what is there. -/
theorem foldl_addPiece_eq (painting : Painting) (b : Batch K) (pieces : List (Subpath K × Bool)) :
    pieces.foldl (Batch.addPiece union resolution painting width) b =
      b ++ Batch.concat (pieces.map fun piece =>
        piece.1.paint union resolution painting width piece.2) := by
  induction pieces generalizing b with
  | nil => exact b.append_empty.symm
  | cons piece pieces ih =>
      rw [List.foldl_cons, ih, Batch.addPiece_eq, Batch.append_assoc]
      rfl

/-- The batch of a path is made of the batches of its pieces. -/
theorem paint_eq_pieces (painting : Painting) (path : PendingPath K) :
    path.paint union resolution painting width =
      Batch.concat (path.pieces.map fun piece =>
        piece.1.paint union resolution painting width piece.2) := by
  rw [paint, foldl_addPiece_eq, Batch.empty_append]

/-- The batch of a path is made of **the batches of its parts**. -/
theorem paint_eq_parts (painting : Painting) (path : PendingPath K) :
    path.paint union resolution painting width =
      Batch.concat (path.parts.map fun part => part.paint union resolution painting width) := by
  rw [paint_eq_pieces, parts, List.map_map]
  exact congrArg Batch.concat
    (List.map_congr_left fun piece _ => (paint_alone union resolution width painting _ piece).symm)

/-- A part gives one reason for each of the two that it is asked for and does not give. -/
theorem length_skipped_alone (painting : Painting) (kind : SubpathKind) (piece : Subpath K × Bool) :
    ((alone kind piece).paint union resolution painting width).skipped.length =
      (if painting.fills && ((alone kind piece).paint union resolution painting width).fill.isEmpty
        then 1 else 0) +
      if painting.strokes && ((alone kind piece).paint union resolution painting width).stroke.isEmpty
        then 1 else 0 := by
  obtain ⟨s, closed⟩ := piece
  have hfill := fun rule => (s.oneOrOther_paint_fill union resolution width closed rule).length_eq
  have hstroke := (s.oneOrOther_paint_stroke union resolution width closed).length_eq
  rw [paint_alone]
  cases painting with
  | stroke => simpa [Painting.fills, Painting.fillRule?, Painting.strokes] using hstroke
  | fill rule => simpa [Painting.fills, Painting.fillRule?, Painting.strokes] using hfill rule
  | endPath => rfl
  | fillAndStroke rule =>
      rw [Subpath.fill_paint_fillAndStroke, Subpath.stroke_paint_fillAndStroke,
        Subpath.paint_fillAndStroke, Batch.skipped_append, List.length_append, hfill, hstroke]
      rfl

/-- There is **one reason for each part** that is not filled or not outlined as it should be. -/
theorem length_skipped_paint (painting : Painting) (path : PendingPath K) :
    (path.paint union resolution painting width).skipped.length =
      (if painting.fills then
          path.parts.countP fun part => (part.paint union resolution painting width).fill.isEmpty
        else 0) +
      if painting.strokes then
        path.parts.countP fun part => (part.paint union resolution painting width).stroke.isEmpty
      else 0 := by
  rw [paint_eq_parts, Batch.skipped_concat, parts]
  induction path.pieces with
  | nil => cases painting <;> rfl
  | cons piece pieces ih =>
      rw [List.map_cons, List.map_cons, List.flatMap_cons, List.length_append, ih,
        length_skipped_alone, List.countP_cons, List.countP_cons]
      cases painting.fills <;> cases painting.strokes <;> simp <;> omega

omit [Scalar K] [Trigonometric K] in
theorem exists_alone_of_mem_parts {path part : PendingPath K} (h : part ∈ path.parts) :
    ∃ s closed, part = alone path.kind (s, closed) := by
  obtain ⟨⟨s, closed⟩, -, rfl⟩ := List.mem_map.1 h
  exact ⟨s, closed, rfl⟩

/-- **Every path is painted apart**: its batch is made of those of its parts, each of which gives
polygons or one reason for each of the two that it is asked for. -/
theorem paintsApart (path : PendingPath K) : path.PaintsApart union resolution width where
  fill_eq painting := by
    rw [paint_eq_parts, Batch.fill_concat, List.flatMap_map]
  stroke_eq painting := by
    rw [paint_eq_parts, Batch.stroke_concat, List.flatMap_map]
  skipped_eq painting := by
    rw [paint_eq_parts, Batch.skipped_concat, List.flatMap_map]
  fill_part part hpart rule := by
    obtain ⟨s, closed, rfl⟩ := exists_alone_of_mem_parts hpart
    rw [paint_alone]
    exact ⟨s.stroke_paint_fill union resolution width closed rule,
      s.oneOrOther_paint_fill union resolution width closed rule⟩
  stroke_part part hpart := by
    obtain ⟨s, closed, rfl⟩ := exists_alone_of_mem_parts hpart
    rw [paint_alone]
    exact ⟨s.fill_paint_stroke union resolution width closed,
      s.oneOrOther_paint_stroke union resolution width closed⟩
  both_part part hpart rule := by
    obtain ⟨s, closed, rfl⟩ := exists_alone_of_mem_parts hpart
    rw [paint_alone, paint_alone, paint_alone]
    exact s.paint_fillAndStroke union resolution width closed rule
  length_skipped painting := length_skipped_paint union resolution width painting path
  fill_both rule := by
    rw [paint_eq_pieces, paint_eq_pieces, Batch.fill_concat, Batch.fill_concat, List.flatMap_map,
      List.flatMap_map]
    exact List.flatMap_congr fun piece _ =>
      piece.1.fill_paint_fillAndStroke union resolution width piece.2 rule
  stroke_both rule := by
    rw [paint_eq_pieces, paint_eq_pieces, Batch.stroke_concat, Batch.stroke_concat,
      List.flatMap_map, List.flatMap_map]
    exact List.flatMap_congr fun piece _ =>
      piece.1.stroke_paint_fillAndStroke union resolution width piece.2 rule

end PendingPath

end Artwork
