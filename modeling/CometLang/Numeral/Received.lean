import CometLang.Text.Digit

/-!
# Received numerals

A line of input counts as a number when it is an optional minus sign, decimal
digits, and possibly a point with more decimal digits. The digits may be those
of any script.
-/

namespace CometLang
namespace Numeral

/-- At least one decimal digit, and nothing else. -/
def isDecimalRun (cs : List Char) : Bool :=
  !cs.isEmpty && cs.all Text.isDecimalDigit

/-- Digits, or digits around one point. -/
def isUnsignedNumeral (cs : List Char) : Bool :=
  let whole := cs.takeWhile Text.isDecimalDigit
  match cs.dropWhile Text.isDecimalDigit with
  | [] => !whole.isEmpty
  | '.' :: fraction => !whole.isEmpty && isDecimalRun fraction
  | _ => false

/-- A numeral as reception takes it. -/
def isNumeral : List Char → Bool
  | '-' :: rest => isUnsignedNumeral rest
  | cs => isUnsignedNumeral cs

end Numeral
end CometLang
