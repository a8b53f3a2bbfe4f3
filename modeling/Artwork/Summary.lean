import Artwork.Layer.Aperture

/-!
**Counts over a layout.**

Main definitions:

* `LayerSummary`, `Summary` — how many apertures and entries there are, layer by layer;
* `Layout.summary` — **the counts of a layout**;
* `Summary.text` — the counts in words.
-/

set_option relaxedAutoImplicit false
set_option autoImplicit false

namespace Artwork

/-- The counts of one layer. -/
structure LayerSummary where
  number : Int
  apertures : Nat
  entries : Nat
  clearEntries : Nat
  deriving Repr, DecidableEq

/-- The counts of all layers, in their order. -/
structure Summary where
  layers : List LayerSummary
  deriving Repr, DecidableEq

/-- All entries of a layer, aperture by aperture. -/
def Layer.entries (layer : Layer) : List Entry :=
  layer.values.flatMap (·.geometry)

/-- Counts the apertures and the entries of a layer. -/
def LayerSummary.of (number : Int) (layer : Layer) : LayerSummary :=
  { number := number
    apertures := layer.size
    entries := layer.entries.length
    clearEntries := layer.entries.countP Entry.isClear }

/-- The **counts of a layout**. -/
def Layout.summary (layout : Layout) : Summary :=
  ⟨layout.entries.map fun (number, layer) => .of number layer⟩

namespace Summary

/-- All apertures. -/
def apertures (s : Summary) : Nat :=
  s.layers.foldl (fun n l => n + l.apertures) 0

/-- All entries. -/
def entries (s : Summary) : Nat :=
  s.layers.foldl (fun n l => n + l.entries) 0

/-- A line for each layer, and the totals. -/
def text (s : Summary) : String :=
  let lines := s.layers.map fun l =>
    "layer " ++ toString l.number ++ ": " ++ toString l.apertures ++ " apertures, "
      ++ toString l.entries ++ " entries (" ++ toString l.clearEntries ++ " clear)\n"
  String.join lines ++ "total: " ++ toString s.layers.length ++ " layers, "
    ++ toString s.apertures ++ " apertures, " ++ toString s.entries ++ " entries"

end Summary

end Artwork
