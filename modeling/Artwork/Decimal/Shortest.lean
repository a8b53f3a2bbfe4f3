import Artwork.Decimal.Binary

/-!
**The shortest decimal of a double.**

Many decimals are read as the same double: those in an interval around it, half way to its two
neighbours, the ends included when its mantissa is even.  The shortest of them is looked for on
coarser decimal grids first.  On each grid only the two neighbours of the double can be the nearest
point, and if any point of the grid lies in the interval, one of these two does.

Main definitions:

* `Decimal` — a whole number times a power of ten;
* `Tie`, `Tie.nearer` — the nearer of two neighbours, and which of two equally near ones;
* `Shortest.scan` — the first grid with a hit;
* `shortest` — **the fewest digits that read back**, the nearest such decimal.
-/

set_option relaxedAutoImplicit false
set_option autoImplicit false

namespace Artwork

/-- The number `digits * 10 ^ exponent`. -/
structure Decimal where
  digits : Nat
  exponent : Int
  deriving Repr, DecidableEq

/-- Drops a zero at the end of the digits, up to `fuel` times. -/
def Decimal.stripZeros : (fuel : Nat) → Decimal → Decimal
  | 0, d => d
  | fuel + 1, d =>
    if d.digits ≠ 0 ∧ d.digits % 10 = 0 then stripZeros fuel ⟨d.digits / 10, d.exponent + 1⟩ else d

/-- Which of its two neighbours a number half way between them goes to. -/
inductive Tie where
  | even
  | up
  deriving Repr, DecidableEq

/-- The nearer of the neighbours `n` and `n + 1` of a number that is so far above the one and so
far below the other. -/
def Tie.nearer (tie : Tie) (n below above : Nat) : Nat :=
  if below < above then n
  else if above < below then n + 1
  else match tie with
    | .even => if n % 2 = 0 then n else n + 1
    | .up => n + 1

namespace Shortest

/-- The interval of numbers that read back, in quarters of the last place of the double:
its lower end, the double itself, its upper end, and whether the ends belong to it.  Below a power of
two the neighbour is only half as far. -/
structure Interval where
  low : Nat
  middle : Nat
  high : Nat
  closed : Bool
  exponent : Int

/-- The interval of the double `mantissa * 2 ^ exponent`. -/
def Interval.of (mantissa : Nat) (exponent : Int) : Interval :=
  { low := 4 * mantissa - if mantissa = 4503599627370496 ∧ -1074 < exponent then 1 else 2
    middle := 4 * mantissa
    high := 4 * mantissa + 2
    closed := mantissa % 2 = 0
    exponent := exponent - 2 }

/-- What a point of the grid `10 ^ k` is multiplied by, to be compared with the interval. -/
def Interval.gridUnit (i : Interval) (k : Int) : Nat :=
  Nat.pow 10 k.toNat <<< (-i.exponent).toNat

/-- What the interval is multiplied by, to be compared with points of the grid `10 ^ k`. -/
def Interval.ownUnit (i : Interval) (k : Int) : Nat :=
  Nat.pow 10 (-k).toNat <<< i.exponent.toNat

/-- The point `n * 10 ^ k` reads back. -/
def Interval.holds (i : Interval) (k : Int) (n : Nat) : Bool :=
  let point := n * i.gridUnit k
  let low := i.low * i.ownUnit k
  let high := i.high * i.ownUnit k
  if i.closed then low ≤ point && point ≤ high else low < point && point < high

/-- The neighbour on the grid `10 ^ k` that reads back, the nearer of two. -/
def Interval.hit? (i : Interval) (tie : Tie) (k : Int) : Option Nat :=
  let unit := i.gridUnit k
  let middle := i.middle * i.ownUnit k
  let n := middle / unit
  let below := middle - n * unit
  let above := (n + 1) * unit - middle
  match i.holds k n, i.holds k (n + 1) with
  | true, true => some (tie.nearer n below above)
  | true, false => some n
  | false, true => some (n + 1)
  | false, false => none

/-- Tries the grids `10 ^ k`, `10 ^ (k - 1)`, … for the first with a hit. -/
def scan (i : Interval) (tie : Tie) : (fuel : Nat) → (k : Int) → Decimal
  | 0, k => ⟨i.middle * i.ownUnit k / i.gridUnit k, k⟩
  | fuel + 1, k =>
    match i.hit? tie k with
    | some n => ⟨n, k⟩
    | none => scan i tie fuel (k - 1)

end Shortest

/-- The **shortest decimal** that reads back as `mantissa * 2 ^ exponent`, the nearest of those; `tie`
tells which of two equally near ones.  Its last digit is not zero, except for the number zero. -/
def shortest (tie : Tie) (mantissa : Nat) (exponent : Int) : Decimal :=
  if mantissa = 0 then ⟨0, 0⟩
  else
    let top := (mantissa.log2 + exponent) * 30103 / 100000 + 1
    (Shortest.scan (.of mantissa exponent) tie 20 top).stripZeros 20

end Artwork
