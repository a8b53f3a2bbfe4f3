/-!
**The numbers that coordinates are made of.**

Every rule about points, rings, curves and outlines is written once, over any type of numbers that
has the operations of `Scalar`.  The importer runs these rules on doubles; a statement that is only
true without rounding is stated over an exact field, which has the same operations.  The order of the
operations in a definition is part of its meaning, because doubles round after each of them.

Main definitions:

* `Scalar` — the arithmetic and the comparisons of the geometry;
* `Trigonometric` — square root, cosine, sine and the full turn;
* `Scalar.magnitude`, `Scalar.lesser`, `Scalar.greater` — absolute value, minimum and maximum;
* `Scalar.isFinite` — the numbers that are neither infinite nor undefined.
-/

set_option relaxedAutoImplicit false
set_option autoImplicit false

namespace Artwork

/-- Numbers with the arithmetic and comparisons of the geometry.  The comparison `==` need not
be reflexive: an undefined double differs from itself. -/
class Scalar (K : Type) extends Zero K, One K, Add K, Sub K, Mul K, Div K, Neg K, NatCast K, BEq K,
    LT K, LE K where
  /-- The strict order can be decided. -/
  decideLT : DecidableLT K
  /-- The order can be decided. -/
  decideLE : DecidableLE K

attribute [reducible, instance] Scalar.decideLT Scalar.decideLE

/-- The functions of a circle, and the square root that measures lengths. -/
class Trigonometric (K : Type) where
  /-- The square root. -/
  sqrt : K → K
  /-- The cosine of an angle in radians. -/
  cos : K → K
  /-- The sine of an angle in radians. -/
  sin : K → K
  /-- The angle of a full turn in radians. -/
  turn : K

/-- A natural number as the double nearest to it. -/
instance floatNatCast : NatCast Float where
  natCast := Float.ofNat

instance floatScalar : Scalar Float where
  zero := 0
  one := 1
  decideLT := Float.decLt
  decideLE := Float.decLe

instance floatTrigonometric : Trigonometric Float where
  sqrt := Float.sqrt
  cos := Float.cos
  sin := Float.sin
  turn := 6.283185307179586

namespace Scalar

variable {K : Type} [Scalar K]

/-- The absolute value; a zero of either sign has the positive zero as its magnitude. -/
@[inline] def magnitude (x : K) : K :=
  if x < 0 then -x else if x == 0 then 0 else x

/-- The smaller of two numbers.  An undefined operand is passed over, and of two equal operands
the second is taken. -/
@[inline] def lesser (x y : K) : K :=
  if x < y then x else if y == y then y else x

/-- The greater of two numbers.  An undefined operand is passed over, and of two equal operands
the second is taken. -/
@[inline] def greater (x y : K) : K :=
  if y < x then x else if y == y then y else x

/-- A number is finite when it leaves nothing once it is taken from itself. -/
@[inline] def isFinite (x : K) : Bool :=
  x - x == 0

end Scalar

end Artwork
