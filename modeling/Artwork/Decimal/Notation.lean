import Artwork.Decimal.Shortest

/-!
**Decimals as text.**

Main definitions:

* `Decimal.positional` — all digits written out, without an exponent;
* `plainText` — **the shortest text of a double**;
* `fixedText` — a double with a fixed number of places.
-/

set_option relaxedAutoImplicit false
set_option autoImplicit false

namespace Artwork

/-- `n` zeros. -/
def zeros (n : Nat) : String :=
  String.ofList (List.replicate n '0')

/-- A whole number with a point before the last `places` digits. -/
def withPoint (n places : Nat) : String :=
  let digits := toString n
  let padded := zeros (places + 1 - digits.length) ++ digits
  let whole := padded.length - places
  if places = 0 then padded
  else String.ofList (padded.toList.take whole) ++ "." ++ String.ofList (padded.toList.drop whole)

/-- All digits written out: a point only if there are places behind it. -/
def Decimal.positional (d : Decimal) : String :=
  match d.exponent with
  | .ofNat e => toString d.digits ++ if d.digits = 0 then "" else zeros e
  | .negSucc e => withPoint d.digits (e + 1)

/-- The sign in front of a number. -/
def signText (negative : Bool) : String :=
  if negative then "-" else ""

/-- The **shortest text** of a double that reads back, with all digits written out; of two equally near
ones the one farther from zero.  A negative zero keeps its sign. -/
def plainText (x : Float) : String :=
  match Binary.ofFloat x with
  | .undefined => "NaN"
  | .infinite negative => signText negative ++ "inf"
  | .finite negative mantissa exponent =>
    signText negative ++ (shortest .up mantissa exponent).positional

/-- A fraction rounded to a whole number. -/
def Tie.divide (tie : Tie) (numerator denominator : Nat) : Nat :=
  let rest := numerator % denominator
  tie.nearer (numerator / denominator) rest (denominator - rest)

/-- A double with so many places behind the point, rounded from its exact value, halves to the even
neighbour. -/
def fixedText (places : Nat) (x : Float) : String :=
  match Binary.ofFloat x with
  | .undefined => "NaN"
  | .infinite negative => signText negative ++ "inf"
  | .finite negative mantissa exponent =>
    let n := Tie.even.divide ((mantissa * Nat.pow 10 places) <<< exponent.toNat)
      (1 <<< (-exponent).toNat)
    signText negative ++ withPoint n places

end Artwork
