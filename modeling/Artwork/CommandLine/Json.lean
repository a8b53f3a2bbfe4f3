import Artwork.Decimal.Notation
import Artwork.Layer.Aperture
import Artwork.Drill

/-!
**Results as JSON.**

A layout is an object of layers by number, a layer an object of apertures by name.  Numbers have the
fewest digits that read back; they are written out while the point is near the digits, and with an
exponent of ten beyond that.

Main definitions:

* `Json.number` — **a double as a JSON number**;
* `Json.layout`, `Json.drills` — the results of the two commands.
-/

set_option relaxedAutoImplicit false
set_option autoImplicit false

namespace Artwork.Json

/-- The members of a list between brackets. -/
def array (members : List String) : String :=
  "[" ++ ",".intercalate members ++ "]"

/-- A character within quotes. -/
def escapeChar (c : Char) : String :=
  if c == '"' then "\\\""
  else if c == '\\' then "\\\\"
  else if c == '\n' then "\\n"
  else if c == '\r' then "\\r"
  else if c == '\t' then "\\t"
  else if c == '\x08' then "\\b"
  else if c == '\x0c' then "\\f"
  else if c.toNat < 0x20 then
    let digits := Nat.toDigits 16 c.toNat
    "\\u" ++ zeros (4 - digits.length) ++ String.ofList digits
  else c.toString

/-- A text between quotes. -/
def text (s : String) : String :=
  "\"" ++ String.join (s.toList.map escapeChar) ++ "\""

/-- Fields between braces. -/
def object (fields : List (String × String)) : String :=
  "\x7b" ++ ",".intercalate (fields.map fun (name, value) => text name ++ ":" ++ value) ++ "\x7d"

/-- An exponent of ten, always with its sign. -/
def exponentText (exponent : Int) : String :=
  "e" ++ (if exponent < 0 then "-" else "+") ++ toString exponent.natAbs

/-- Digits with an exponent of ten: one digit before the point. -/
def scientific (digits : String) (exponent : Int) : String :=
  match digits.toList with
  | [] => "0"
  | c :: rest =>
    let fraction := if rest.isEmpty then "" else "." ++ String.ofList rest
    c.toString ++ fraction ++ exponentText exponent

/-- A decimal other than zero.  It is written out when its point lies at most four zeros before the
digits and at most sixteen places behind their beginning. -/
def decimal (d : Decimal) : String :=
  let digits := toString d.digits
  let point := (digits.length : Int) + d.exponent
  if 0 ≤ d.exponent && point ≤ 16 then d.positional ++ ".0"
  else if -5 < point && point ≤ 16 then d.positional
  else scientific digits (point - 1)

/-- A double as a **JSON number**; there is none for infinity and for what is undefined. -/
def number (x : Float) : String :=
  match Binary.ofFloat x with
  | .finite negative mantissa exponent =>
    signText negative
      ++ if mantissa = 0 then "0.0" else decimal (shortest .even mantissa exponent)
  | _ => "null"

/-- A point by its coordinates. -/
def point (p : Point Float) : String :=
  object [("x", number p.x), ("y", number p.y)]

/-- A ring by its points. -/
def ring (r : Ring Float) : String :=
  array (r.points.map point)

/-- A polygon by its rings. -/
def polygon (p : Polygon Float) : String :=
  object [("exterior", ring p.exterior), ("interiors", array (p.holes.map ring))]

/-- An entry by the way it is painted. -/
def entry : Entry → String
  | .solid p follow => object [("solid", polygon p), ("follow", ring follow)]
  | .clear p => object [("clear", polygon p)]

/-- An aperture with its entries. -/
def aperture (a : Aperture) : String :=
  object [("size", number a.size), ("type", text Aperture.shapeCode),
    ("geometry", array (a.geometry.map entry))]

/-- A layer by the names of its apertures. -/
def layer (l : Layer) : String :=
  object (l.entries.map fun (id, a) => (id, aperture a))

/-- A layout by the numbers of its layers. -/
def layout (l : Layout) : String :=
  object (l.entries.map fun (number, l) => (toString number, layer l))

/-- A list of holes. -/
def drills (holes : List (Drill Float)) : String :=
  array (holes.map fun d => object [("center", point d.center), ("diameter", number d.diameter)])

end Artwork.Json
