import Artwork.Layer.Builder
import Artwork.Proofs.Table

/-!
**Runs of the layer builder.**

Sorting polygons is a run of two kinds of calls: a stroke colour is observed, or a batch is
classified.  This module names the two stages of adding a solid batch, the layer it finds and the
aperture it is put into, and says what each of them does.

Main definitions:

* `LayerBuilder.Call`, `LayerBuilder.run` — **a sequence of calls**;
* `LayerBuilder.readyFor`, `LayerBuilder.put` — the layer a solid batch finds, and its aperture;
* `LayerBuilder.nameFor`, `LayerBuilder.isNew` — the name of this aperture, and whether it is made.

Main results:

* `LayerBuilder.addSolid_eq` — a solid batch is made ready for and then put;
* `LayerBuilder.get?_current_put_of_isNew`, `LayerBuilder.get?_current_put_of_not_isNew`,
  `LayerBuilder.get?_current_put_of_ne` — **what putting does to each aperture**.
-/

set_option relaxedAutoImplicit false
set_option autoImplicit false

namespace Artwork

/-- No aperture of the layer is empty. -/
def Layer.Filled (layer : Layer) : Prop :=
  ∀ id a, layer.get? id = some a → a.isEmpty = false

namespace Layer

theorem filled_empty : Layer.Filled .empty := by
  intro id a h
  cases h

/-- If no aperture of a layer is empty, all of them are exactly if there is none. -/
theorem Filled.all_isEmpty {layer : Layer} (h : layer.Filled) :
    layer.values.all Aperture.isEmpty = layer.isEmpty := by
  rw [Bool.eq_iff_iff, List.all_eq_true, Table.isEmpty_iff]
  constructor
  · intro hall id
    rw [Option.eq_none_iff_forall_not_mem]
    intro a ha
    have hempty := hall a (Table.mem_values_iff.2 ⟨id, ha⟩)
    rw [h id a ha] at hempty
    cases hempty
  · intro hnone a ha
    obtain ⟨id, hid⟩ := Table.mem_values_iff.1 ha
    rw [hnone id] at hid
    cases hid

/-- Nothing is dropped from a layer without empty apertures. -/
theorem Filled.filter_eq {layer : Layer} (h : layer.Filled) :
    layer.filter (fun a => !a.isEmpty) = layer := by
  apply Table.ext
  refine List.filter_eq_self.2 ?_
  rintro ⟨id, a⟩ hmem
  simp [h id a (Table.get?_eq_some_iff.2 hmem)]

end Layer

namespace Layout

/-- The aperture of this name in the layer of this number. -/
def aperture? (layout : Layout) (n : Int) (id : String) : Option Aperture :=
  (layout.get? n).bind fun layer => layer.get? id

/-- No layer is empty, and neither is an aperture. -/
def Filled (layout : Layout) : Prop :=
  ∀ n layer, layout.get? n = some layer → layer.Filled ∧ layer.isEmpty = false

/-- Nothing is pruned from a layout without empty layers and apertures. -/
theorem Filled.prune_eq {layout : Layout} (h : layout.Filled) : layout.prune = layout := by
  have hlayers : ∀ e ∈ layout.entries, e.2.Filled ∧ e.2.isEmpty = false :=
    fun e he => h e.1 e.2 (Table.get?_eq_some_iff.2 he)
  have hmap : layout.map (fun _ layer => layer.filter (!·.isEmpty)) = layout := by
    apply Table.ext
    refine (List.map_congr_left fun e he => ?_).trans (List.map_id _)
    exact Prod.ext rfl (hlayers e he).1.filter_eq
  rw [prune, hmap]
  apply Table.ext
  refine List.filter_eq_self.2 fun e he => ?_
  simp [(hlayers e he).2]

end Layout

namespace LayerBuilder

/-! ### Calls -/

/-- What the builder can be **asked for**. -/
inductive Call where
  /-- A stroke colour has been set. -/
  | observe (color : Color Float)
  /-- A batch of polygons has been painted. -/
  | classify (batch : List (Polygon Float)) (width : Float) (isClear : Bool) (color : Color Float)

/-- A batch of clear polygons. -/
def Call.isClear : Call → Bool
  | observe _ => false
  | classify _ _ isClear _ => isClear

/-- The builder after a call. -/
def call (b : LayerBuilder) : Call → LayerBuilder
  | .observe color => b.observe color
  | .classify batch width isClear color => b.classify batch width isClear color

/-- The builder after a **sequence of calls**. -/
def run (b : LayerBuilder) (calls : List Call) : LayerBuilder :=
  calls.foldl call b

@[simp] theorem run_nil (b : LayerBuilder) : b.run [] = b := rfl

@[simp] theorem run_cons (b : LayerBuilder) (c : Call) (calls : List Call) :
    b.run (c :: calls) = (b.call c).run calls := rfl

theorem run_append (b : LayerBuilder) (calls later : List Call) :
    b.run (calls ++ later) = (b.run calls).run later :=
  List.foldl_append ..

/-! ### The stages of a solid batch -/

/-- The builder with the layer that a solid batch of this colour is added to. -/
def readyFor (b : LayerBuilder) (color : Color Float) : LayerBuilder :=
  let b := b.observe color
  if b.rolloverPending then b.rollOver else b

/-- Puts entries into the aperture of a rounded width. -/
def put (b : LayerBuilder) (size : Float) (entries : List Entry) : LayerBuilder :=
  let (id, b) := b.apertureFor size
  { b with current := b.current.modify id (·.append entries) }

theorem addSolid_eq (b : LayerBuilder) (batch : List (Polygon Float)) (width : Float)
    (color : Color Float) :
    b.addSolid batch width color =
      (b.readyFor color).put (roundWidth width) (batch.map .ofSolid) := rfl

/-- The name of the aperture that entries of a rounded width are put into. -/
def nameFor (b : LayerBuilder) (size : Float) : String :=
  (b.apertureFor size).1

/-- No aperture of the layer under construction has this width yet: a name is minted for it. -/
def isNew (b : LayerBuilder) (size : Float) : Bool :=
  (b.widthIds.lookup (widthKey size)).isNone

theorem lookup_of_not_isNew {b : LayerBuilder} {size : Float} (h : b.isNew size = false) :
    b.widthIds.lookup (widthKey size) = some (b.nameFor size) := by
  rw [isNew, Option.isNone_eq_false_iff, Option.isSome_iff_exists] at h
  obtain ⟨id, hid⟩ := h
  simp [nameFor, apertureFor, hid]

theorem nameFor_of_isNew {b : LayerBuilder} {size : Float} (h : b.isNew size = true) :
    b.nameFor size = (mintId b.nextId).1 := by
  have hnone := Option.isNone_iff_eq_none.1 h
  simp [nameFor, apertureFor, hnone]

/-- A known width has an aperture, which is extended. -/
theorem put_of_not_isNew {b : LayerBuilder} {size : Float} (entries : List Entry)
    (h : b.isNew size = false) :
    b.put size entries =
      { b with current := b.current.modify (b.nameFor size) (·.append entries) } := by
  have hsome := lookup_of_not_isNew h
  simp [put, apertureFor, hsome]

/-- For a new width an aperture is made, in place of one of the same name. -/
theorem put_of_isNew {b : LayerBuilder} {size : Float} (entries : List Entry)
    (h : b.isNew size = true) :
    b.put size entries =
      { b with
        nextId := (mintId b.nextId).2
        widthIds := (widthKey size, b.nameFor size) :: b.widthIds
        current := (b.current.insert (b.nameFor size) (.new size)).modify (b.nameFor size)
          (·.append entries) } := by
  have hnone := Option.isNone_iff_eq_none.1 h
  simp [put, apertureFor, nameFor, hnone]

theorem get?_current_put_of_not_isNew {b : LayerBuilder} {size : Float} (entries : List Entry)
    (h : b.isNew size = false) :
    (b.put size entries).current.get? (b.nameFor size) =
      (b.current.get? (b.nameFor size)).map (·.append entries) := by
  rw [put_of_not_isNew entries h, Table.get?_modify_self]

theorem get?_current_put_of_isNew {b : LayerBuilder} {size : Float} (entries : List Entry)
    (h : b.isNew size = true) :
    (b.put size entries).current.get? (b.nameFor size) = some ⟨size, entries⟩ := by
  rw [put_of_isNew entries h, Table.get?_modify_self, Table.get?_insert_self]
  rfl

/-- The other apertures of the layer **stay as they are**. -/
theorem get?_current_put_of_ne (b : LayerBuilder) {size : Float} (entries : List Entry)
    {id : String} (hid : b.nameFor size ≠ id) :
    (b.put size entries).current.get? id = b.current.get? id := by
  cases h : b.isNew size with
  | true =>
      rw [put_of_isNew entries h, Table.get?_modify_of_ne _ _ hid, Table.get?_insert_of_ne _ _ hid]
  | false => rw [put_of_not_isNew entries h, Table.get?_modify_of_ne _ _ hid]

@[simp] theorem nextLayer_put (b : LayerBuilder) (size : Float) (entries : List Entry) :
    (b.put size entries).nextLayer = b.nextLayer := by
  cases h : b.isNew size with
  | true => rw [put_of_isNew entries h]
  | false => rw [put_of_not_isNew entries h]

@[simp] theorem frozen_put (b : LayerBuilder) (size : Float) (entries : List Entry) :
    (b.put size entries).frozen = b.frozen := by
  cases h : b.isNew size with
  | true => rw [put_of_isNew entries h]
  | false => rw [put_of_not_isNew entries h]

theorem classify_of_isEmpty {batch : List (Polygon Float)} (h : batch.isEmpty = true)
    (b : LayerBuilder) (width : Float) (isClear : Bool) (color : Color Float) :
    b.classify batch width isClear color = b := by
  rw [classify, if_pos h]

theorem classify_clear {batch : List (Polygon Float)} (h : batch.isEmpty = false)
    (b : LayerBuilder) (width : Float) (color : Color Float) :
    b.classify batch width true color = b.addClear batch := by
  simp [classify, h]

theorem classify_solid {batch : List (Polygon Float)} (h : batch.isEmpty = false)
    (b : LayerBuilder) (width : Float) (color : Color Float) :
    b.classify batch width false color =
      (b.readyFor color).put (roundWidth width) (batch.map .ofSolid) := by
  simp [classify, h, addSolid_eq]

end LayerBuilder

end Artwork
