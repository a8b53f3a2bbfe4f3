/-!
**Doubles as exact numbers.**

A finite double is a whole number times a power of two.  Everything that must not be rounded, or must
be rounded in one particular way, is computed from this form with whole numbers.

Main definitions:

* `Binary`, `Binary.ofFloat` — **what a double stands for**;
* `halfAwayShift` — a whole number times a power of two, rounded to the nearest whole number;
* `Binary.nearest?` — the whole number nearest to a double;
* `roundHalfAway` — the same as a double.
-/

set_option relaxedAutoImplicit false
set_option autoImplicit false

namespace Artwork

/-- What a double **stands for**. -/
inductive Binary where
  | undefined
  | infinite (negative : Bool)
  /-- The number `mantissa * 2 ^ exponent`, or its negative; zero has a sign too. -/
  | finite (negative : Bool) (mantissa : Nat) (exponent : Int)
  deriving Repr, DecidableEq

/-- `mantissa * 2 ^ exponent` rounded to the nearest whole number, halves away from zero. -/
def halfAwayShift (mantissa : Nat) (exponent : Int) : Nat :=
  match exponent with
  | .ofNat e => mantissa <<< e
  | .negSucc e => (mantissa + 1 <<< e) >>> (e + 1)

namespace Binary

/-- Reads sign, exponent and fraction off the **bits of a double**. -/
def ofFloat (x : Float) : Binary :=
  let bits := x.toBits.toNat
  let negative := bits >>> 63 == 1
  let exponent := (bits >>> 52) % 2048
  let fraction := bits % 4503599627370496
  if exponent == 2047 then
    if fraction == 0 then .infinite negative else .undefined
  else if exponent == 0 then .finite negative fraction (-1074)
  else .finite negative (4503599627370496 + fraction) ((exponent : Int) - 1075)

/-- The number is neither infinite nor undefined. -/
def isFinite : Binary → Bool
  | finite .. => true
  | _ => false

/-- The nearest whole number to `x * 2 ^ shift`, halves away from zero. -/
def nearestShift? (shift : Int) : Binary → Option Int
  | finite negative mantissa exponent =>
    let n := halfAwayShift mantissa (exponent + shift)
    some (if negative then -(n : Int) else n)
  | _ => none

/-- The nearest whole number, halves away from zero. -/
def nearest? (b : Binary) : Option Int :=
  b.nearestShift? 0

/-- The power of two below a number other than zero: the greatest `e` with `2 ^ e ≤ |x|`. -/
def logFloor? : Binary → Option Int
  | finite _ mantissa exponent => if mantissa = 0 then none else some (mantissa.log2 + exponent)
  | _ => none

end Binary

/-- A double rounded to a whole number, halves away from zero.  Doubles from `2 ^ 52` on are
whole already, and the sign of a zero is kept. -/
def roundHalfAway (x : Float) : Float :=
  match Binary.ofFloat x with
  | .finite negative mantissa exponent =>
    if 0 ≤ exponent then x
    else
      let n := Float.ofNat (halfAwayShift mantissa exponent)
      if negative then -n else n
  | _ => x

end Artwork
