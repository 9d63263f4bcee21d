/-!
# Ranges of code points

Character classes of the Unicode standard are kept as lists of closed ranges
of code points. A class is a predicate: a character belongs to it when one of
its ranges holds the character's code point.
-/

namespace CometLang
namespace Text

/-- A closed interval of code points. -/
structure CodeRange where
  first : Nat
  last : Nat
deriving DecidableEq, Repr

/-- The code point of the character lies between both ends. -/
def CodeRange.holds
    (range : CodeRange)
    (c : Char) : Bool :=
  range.first ≤ c.toNat && c.toNat ≤ range.last

/-- Some range of the list holds the character. -/
def inRanges
    (ranges : List CodeRange)
    (c : Char) : Bool :=
  ranges.any fun range => range.holds c

end Text
end CometLang
