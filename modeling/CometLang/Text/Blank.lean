import CometLang.Text.CodeRange

/-!
# Blanks

The characters of the property White_Space. They separate words, and they are
what trimming removes from both ends of a text.
-/

namespace CometLang
namespace Text

/-- The ranges of the property White_Space, in increasing order. -/
def blanks : List CodeRange :=
  [⟨0x9, 0xd⟩, ⟨0x20, 0x20⟩, ⟨0x85, 0x85⟩, ⟨0xa0, 0xa0⟩, ⟨0x1680, 0x1680⟩,
   ⟨0x2000, 0x200a⟩, ⟨0x2028, 0x2029⟩, ⟨0x202f, 0x202f⟩, ⟨0x205f, 0x205f⟩,
   ⟨0x3000, 0x3000⟩]

/-- A character that separates words. -/
def isBlank (c : Char) : Bool :=
  inRanges blanks c

/-- A list of characters without the blanks at both ends. -/
def trimBlanks (cs : List Char) : List Char :=
  ((cs.dropWhile isBlank).reverse.dropWhile isBlank).reverse

/-- A text without the blanks at both ends. -/
def trimmed (s : String) : String :=
  String.ofList (trimBlanks s.toList)

end Text
end CometLang
