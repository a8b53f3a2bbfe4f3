import Artwork.Layer.Aperture
import Artwork.Paint

/-!
**Sorting polygons into apertures and layers.**

Polygons come in batches, with the line width and the stroke colour that were in force.  A batch goes
to the aperture of its rounded width.  When the stroke colour has changed since the last one that was
seen, the next solid batch begins a new layer, even if the colour has changed back by then.  Clear
batches go to an aperture of their own and have no part in this.

Names are given to apertures from one counter over all layers.  It runs through the numbers of 32
bits and skips zero, which names the clear aperture.

Main definitions:

* `LayerBuilder` — the layer under construction, the finished layers and the clear aperture;
* `LayerBuilder.observe`, `LayerBuilder.classify` — **a stroke colour, and a batch of polygons**;
* `LayerBuilder.finish` — the layout.
-/

set_option relaxedAutoImplicit false
set_option autoImplicit false

namespace Artwork

/-- The state of sorting. -/
structure LayerBuilder where
  /-- The number that names the next aperture. -/
  nextId : UInt32
  /-- The number of the layer under construction. -/
  nextLayer : Int
  /-- The stroke colour seen last. -/
  seenColor : Option (Color Float)
  /-- The stroke colour has changed since the layer under construction began. -/
  rolloverPending : Bool
  /-- The layer under construction. -/
  current : Layer
  /-- The names of its apertures by their widths. -/
  widthIds : List (Int × String)
  /-- The clear aperture. -/
  clear : Aperture
  /-- The layers that are complete. -/
  frozen : Layout

/-- A rounded width as a whole number of its last places.  Numbers beyond 64 bits are brought to
the nearest that fits, and an undefined width counts as zero. -/
def widthKey (size : Float) : Int :=
  match Binary.ofFloat (size * 1e5) with
  | .undefined => 0
  | .infinite negative => if negative then -9223372036854775808 else 9223372036854775807
  | b@(.finite ..) => max (-9223372036854775808) (min 9223372036854775807 (b.nearest?.getD 0))

/-- The name of the next aperture, and the counter after it.  Where the counter would name the
clear aperture, it goes on by one. -/
def mintId (next : UInt32) : String × UInt32 :=
  let id := toString next.toNat
  if id = clearId then (toString (next + 1).toNat, next + 2) else (id, next + 1)

namespace LayerBuilder

/-- The state before the first batch. -/
def new (startId : UInt32) : LayerBuilder :=
  { nextId := startId
    nextLayer := 1
    seenColor := none
    rolloverPending := false
    current := .empty
    widthIds := []
    clear := .new 0
    frozen := .empty }

/-- Takes note of a **stroke colour**.  If it differs from the one seen last, the next solid batch
begins a new layer. -/
def observe (b : LayerBuilder) (color : Color Float) : LayerBuilder :=
  { b with
    seenColor := some color
    rolloverPending := b.rolloverPending || b.seenColor.any (· != color) }

/-- Completes the layer under construction.  A layer without polygons takes no number. -/
def rollOver (b : LayerBuilder) : LayerBuilder :=
  let cleared := { b with rolloverPending := false, current := .empty, widthIds := [] }
  if b.current.values.all Aperture.isEmpty then cleared
  else
    { cleared with
      frozen := b.frozen.insert b.nextLayer b.current
      nextLayer := b.nextLayer + 1 }

/-- The aperture of a rounded width in the layer under construction, by its name; it is made if there
is none. -/
def apertureFor (b : LayerBuilder) (size : Float) : String × LayerBuilder :=
  let key := widthKey size
  match b.widthIds.lookup key with
  | some id => (id, b)
  | none =>
    let (id, next) := mintId b.nextId
    (id, { b with
      nextId := next
      widthIds := (key, id) :: b.widthIds
      current := b.current.insert id (.new size) })

/-- Adds a batch of solid polygons, in the layer of its colour and the aperture of its width. -/
def addSolid (b : LayerBuilder) (batch : List (Polygon Float)) (width : Float)
    (color : Color Float) : LayerBuilder :=
  let b := b.observe color
  let b := if b.rolloverPending then b.rollOver else b
  let (id, b) := b.apertureFor (roundWidth width)
  { b with current := b.current.modify id (·.append (batch.map .ofSolid)) }

/-- Adds a batch of clear polygons. -/
def addClear (b : LayerBuilder) (batch : List (Polygon Float)) : LayerBuilder :=
  { b with clear := b.clear.append (batch.map .clear) }

/-- Adds a **batch of polygons**; an empty one leaves no trace. -/
def classify (b : LayerBuilder) (batch : List (Polygon Float)) (width : Float) (isClear : Bool)
    (color : Color Float) : LayerBuilder :=
  if batch.isEmpty then b
  else if isClear then b.addClear batch
  else b.addSolid batch width color

/-- The layout of everything that was added. -/
def finish (b : LayerBuilder) : Layout :=
  let b := b.rollOver
  let layout :=
    if b.clear.isEmpty then b.frozen
    else b.frozen.insert clearLayer (Table.empty.insert clearId b.clear)
  layout.prune

end LayerBuilder

end Artwork
