import CometLang.Numeral.Whole

/-!
# Numbers compared in double precision

Comparisons look at their operands as binary floating-point numbers with 53
significant bits and exponents down to -1074. Such a number is kept exactly, as
a whole multiple of the smallest one, two to the power -1074. Reading a decimal
rounds its exact value to the nearest such number, a tie going to the even
neighbour; zero has one form.
-/

namespace CometLang
namespace Numeral

/-- A floating-point number, counted in units of two to the power -1074. -/
inductive Double where
  | nan
  | infinite (negative : Bool)
  | finite (units : Int)
deriving DecidableEq, Repr

namespace Double

/-- The quotient of two numbers, rounded to nearest, ties to even. -/
def roundDiv (n d : Nat) : Nat :=
  let quotient := n / d
  let rest := n % d
  if d < 2 * rest ∨ (2 * rest = d ∧ quotient % 2 = 1) then
    quotient + 1
  else
    quotient

/-- The quotient as a multiple of a power of two with at most 53 bits in front. -/
def roundUnits (n d : Nat) : Nat :=
  let drop := (n / d).log2 - 52
  roundDiv n (d * Nat.pow 2 drop) * Nat.pow 2 drop

/-- The least number of units that is too large to be finite. -/
def overflow : Nat :=
  Nat.pow 2 (1024 + 1074)

/-- The sign put on a magnitude in units; too large ones are infinite. -/
def ofUnits
    (negative : Bool)
    (units : Nat) : Double :=
  if overflow ≤ units then
    infinite negative
  else
    finite (signedValue negative units)

/-- The number of decimal digits. -/
def decimalLength (n : Nat) : Nat :=
  (Nat.toDigits 10 n).length

/--
The double nearest to `magnitude` times ten to the power `exponent`. What
starts beyond the 310th place is infinite, and what starts below the 330th
place behind the point is zero, so the powers that are computed stay small.
-/
def ofDecimal
    (negative : Bool)
    (magnitude : Nat)
    (exponent : Int) : Double :=
  let leading := (decimalLength magnitude : Int) + exponent
  if magnitude = 0 ∨ leading < -330 then
    finite 0
  else if 310 < leading then
    infinite negative
  else
    ofUnits negative
      (roundUnits
        (magnitude * Nat.pow 10 exponent.toNat * Nat.pow 2 1074)
        (Nat.pow 10 (-exponent).toNat))

/--
The size of an exponent. Digits are taken in until it passes 65535; those that
follow are read over.
-/
def exponentSize (digits : List Char) : Nat :=
  digits.foldl
    (fun n c => if n < 65536 then 10 * n + (c.toNat - '0'.toNat) else n)
    0

/-- The power of ten that an exponent part writes; no part at all writes zero. -/
def exponentOf? : List Char → Option Int
  | [] => some 0
  | c :: rest =>
      let (negative, digits) := splitSign rest
      if (c = 'e' ∨ c = 'E') ∧ isDigits digits then
        some (signedValue negative (exponentSize digits))
      else
        none

/-- The digits behind a point, if there is one, and what follows them. -/
def splitFraction : List Char → List Char × List Char
  | '.' :: rest => (rest.takeWhile Char.isDigit, rest.dropWhile Char.isDigit)
  | cs => ([], cs)

/-- Digits with at most one point among them, and possibly an exponent. -/
def decimalOf?
    (negative : Bool)
    (cs : List Char) : Option Double :=
  let whole := cs.takeWhile Char.isDigit
  let (fraction, rest) := splitFraction (cs.dropWhile Char.isDigit)
  if whole.isEmpty && fraction.isEmpty then
    none
  else
    (exponentOf? rest).map fun exponent =>
      ofDecimal negative
        (digitsValue (whole ++ fraction))
        (exponent - fraction.length)

/-- The double that a text writes, blanks around it aside. -/
def ofText? (text : String) : Option Double :=
  let (negative, cs) := splitSign (Text.trimBlanks text.toList)
  let word := String.ofList (cs.map Char.toLower)
  if word = "nan" then
    some nan
  else if word = "inf" ∨ word = "infinity" then
    some (infinite negative)
  else
    decimalOf? negative cs

/-- How two numbers compare; a NaN compares with nothing. -/
def compare? : Double → Double → Option Ordering
  | nan, _ => none
  | _, nan => none
  | finite a, finite b => some (compare a b)
  | infinite a, infinite b => some (compare b a)
  | infinite negative, finite _ => some (if negative then .lt else .gt)
  | finite _, infinite negative => some (if negative then .gt else .lt)

end Double
end Numeral
end CometLang
