import Artwork.Text.CharacterClass

/-!
**Numerals of operands.**

A numeral is an optional sign, then digits with an optional point among or after them, or a point and
at least one digit.  The digits may be of any script, but only ASCII digits have a value.

Main definitions:

* `Numeral`, `Numeral.read?` — **the words that are numerals**;
* `Numeral.value?` — the double nearest to the value.
-/

set_option relaxedAutoImplicit false
set_option autoImplicit false

namespace Artwork

/-- A numeral: its sign, and the digits before and behind the point. -/
structure Numeral where
  negative : Bool
  whole : List Char
  fraction : List Char
  deriving Repr, DecidableEq

namespace Numeral

/-- The digits of a numeral behind its sign. -/
def readDigits? (negative : Bool) (word : List Char) : Option Numeral :=
  let whole := word.takeWhile isDecimalDigit
  match word.dropWhile isDecimalDigit with
  | [] => if whole.isEmpty then none else some ⟨negative, whole, []⟩
  | c :: fraction =>
    if c == '.' && fraction.all isDecimalDigit && !(whole.isEmpty && fraction.isEmpty) then
      some ⟨negative, whole, fraction⟩
    else none

/-- Reads a word as a **numeral**. -/
def read? : List Char → Option Numeral
  | '+' :: word => readDigits? false word
  | '-' :: word => readDigits? true word
  | word => readDigits? false word

/-- The whole number that ASCII digits write. -/
def digitsValue? (digits : List Char) : Option Nat :=
  digits.foldlM (fun n c => (asciiDigit? c).map (n * 10 + ·)) 0

/-- The value of a numeral in ASCII digits, as the nearest double. -/
def value? (n : Numeral) : Option Float :=
  (digitsValue? (n.whole ++ n.fraction)).map fun digits =>
    let x := Float.ofScientific digits true n.fraction.length
    if n.negative then -x else x

end Numeral

end Artwork
