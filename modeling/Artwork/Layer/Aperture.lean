import Artwork.Plane.Ring
import Artwork.Table
import Artwork.Decimal.Binary

/-!
**Apertures, layers, and the layout.**

Polygons that were painted with one line width share an aperture, and apertures that were painted in
one stroke colour share a layer.  The layout is the result of an import: its layers by number.  Layer
`0` holds what was cleared with white and is read as drill holes.

Main definitions:

* `Entry` — a polygon, solid or clear;
* `Aperture`, `Layer`, `Layout` — **the result of an import**;
* `roundWidth` — the precision to which line widths are told apart;
* `Layout.prune` — a layout without empty apertures and layers.
-/

set_option relaxedAutoImplicit false
set_option autoImplicit false

namespace Artwork

/-- One polygon of an aperture. -/
inductive Entry where
  /-- Copper, and the outline a tool follows around it. -/
  | solid (polygon : Polygon Float) (follow : Ring Float)
  /-- Cleared copper, which may be a drill hole. -/
  | clear (polygon : Polygon Float)
  deriving Repr, DecidableEq

namespace Entry

/-- A solid entry is followed along its exterior. -/
def ofSolid (p : Polygon Float) : Entry :=
  solid p p.exterior

/-- The polygon of an entry. -/
def polygon : Entry → Polygon Float
  | solid p _ => p
  | clear p => p

/-- The entry is cleared copper. -/
def isClear : Entry → Bool
  | solid .. => false
  | clear _ => true

end Entry

/-- A **round aperture**: the polygons painted with one line width. -/
structure Aperture where
  /-- The line width, rounded. -/
  size : Float
  geometry : List Entry
  deriving Repr, DecidableEq

namespace Aperture

/-- An aperture without polygons. -/
def new (size : Float) : Aperture :=
  ⟨size, []⟩

/-- There is no polygon in the aperture. -/
def isEmpty (a : Aperture) : Bool :=
  a.geometry.isEmpty

/-- The aperture with more polygons, after those it has. -/
def append (a : Aperture) (entries : List Entry) : Aperture :=
  { a with geometry := a.geometry ++ entries }

/-- The code of the shape, which is a circle for every aperture. -/
def shapeCode : String := "C"

end Aperture

/-- The apertures of one layer by their names. -/
abbrev Layer := Table String Aperture

/-- The **layers by their numbers**. -/
abbrev Layout := Table Int Layer

/-- The name of the aperture that holds what was cleared. -/
def clearId : String := "0"

/-- The number of the layer that holds what was cleared. -/
def clearLayer : Int := 0

/-- A line width to five places. -/
def roundWidth (width : Float) : Float :=
  roundHalfAway (width * 1e5) / 1e5

namespace Layout

/-- Drops the apertures without polygons, then the layers without apertures. -/
def prune (layout : Layout) : Layout :=
  (layout.map fun _ layer => layer.filter (!·.isEmpty)).filter (!·.isEmpty)

/-- All apertures, layer by layer. -/
def apertures (layout : Layout) : List Aperture :=
  layout.values.flatMap Table.values

end Layout

end Artwork
