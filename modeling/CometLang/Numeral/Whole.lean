import CometLang.Text.Blank

/-!
# Whole numbers

A comet is a signed whole number of 64 bits. It is read from an optional sign
and at least one digit, blanks around them aside; a number outside the range is
not read at all.
-/

namespace CometLang
namespace Numeral

/-- The number that decimal digits write. -/
def digitsValue (digits : List Char) : Nat :=
  digits.foldl (fun n c => 10 * n + (c.toNat - '0'.toNat)) 0

/-- An optional sign, and what stands behind it. -/
def splitSign : List Char → Bool × List Char
  | '-' :: rest => (true, rest)
  | '+' :: rest => (false, rest)
  | cs => (false, cs)

/-- At least one digit, and only digits. -/
def isDigits (cs : List Char) : Bool :=
  !cs.isEmpty && cs.all Char.isDigit

/-- The value of signed digits. -/
def signedValue
    (negative : Bool)
    (magnitude : Nat) : Int :=
  if negative then -(magnitude : Int) else magnitude

/-- The integer that the characters write, of any size. -/
def integerOf? (cs : List Char) : Option Int :=
  let (negative, digits) := splitSign cs
  if isDigits digits then
    some (signedValue negative (digitsValue digits))
  else
    none

/-- The integer lies in the range of signed 64-bit numbers. -/
def fits64 (n : Int) : Bool :=
  -9223372036854775808 ≤ n && n ≤ 9223372036854775807

/-- The comet that a text writes. -/
def wholeOf? (text : String) : Option Int64 :=
  ((integerOf? (Text.trimBlanks text.toList)).filter fits64).map Int64.ofInt

/-- A comet in decimal digits, with a minus sign if it is negative. -/
def wholeText (n : Int64) : String :=
  toString n.toInt

end Numeral
end CometLang
