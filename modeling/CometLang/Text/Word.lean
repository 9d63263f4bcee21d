import CometLang.Text.Blank

/-!
# Words of a text

A word is a maximal run of characters that are not blank, kept with the byte
offset at which it starts. Splitting looks at one character at a time, from the
right: a character that is not blank joins the word that starts right behind
it, or starts a word of its own.
-/

namespace CometLang
namespace Text

/-- Length in bytes of the UTF-8 form of the characters. -/
def byteLength : List Char → Nat
  | [] => 0
  | c :: cs => c.utf8Size + byteLength cs

/-- The bytes of two texts one after the other. -/
@[simp] theorem byteLength_append
    (cs ds : List Char) :
    byteLength (cs ++ ds) = byteLength cs + byteLength ds := by
  induction cs with
  | nil =>
      simp [byteLength]
  | cons c cs ih =>
      simp [byteLength, ih, Nat.add_assoc]

/-- A text that holds a character takes at least one byte. -/
theorem byteLength_pos
    {cs : List Char}
    (h : cs ≠ []) :
    0 < byteLength cs := by
  cases cs with
  | nil =>
      exact absurd rfl h
  | cons c cs =>
      have hc : 0 < c.utf8Size := Char.utf8Size_pos c
      simp only [byteLength]
      omega

/-- A text that takes no bytes has no characters. -/
theorem eq_nil_of_byteLength
    {cs : List Char}
    (h : byteLength cs = 0) :
    cs = [] := by
  cases cs with
  | nil =>
      rfl
  | cons c cs =>
      have hpos : 0 < byteLength (c :: cs) := byteLength_pos (by simp)
      omega

/-- Every character takes at least one byte. -/
theorem length_le_byteLength
    (cs : List Char) :
    cs.length ≤ byteLength cs := by
  induction cs with
  | nil =>
      exact Nat.le_refl 0
  | cons c cs ih =>
      have hc : 0 < c.utf8Size := c.utf8Size_pos
      rw [List.length_cons, byteLength]
      omega

/-- The length in bytes is that of the text the characters make. -/
theorem utf8ByteSize_ofList
    (cs : List Char) :
    (String.ofList cs).utf8ByteSize = byteLength cs := by
  induction cs with
  | nil =>
      simp [byteLength]
  | cons c cs ih =>
      rw [byteLength, ← ih, String.ofList_cons, String.utf8ByteSize_append]
      simp

theorem byteLength_toList
    (s : String) :
    byteLength s.toList = s.utf8ByteSize := by
  rw [← utf8ByteSize_ofList, String.ofList_toList]

/-- A run of characters without blanks and where it starts, in bytes. -/
structure Word where
  offset : Nat
  text : List Char
deriving DecidableEq, Repr

namespace Word

/-- The byte offset right behind the word. -/
def stop (w : Word) : Nat :=
  w.offset + byteLength w.text

/-- The word as a text. -/
def toText (w : Word) : String :=
  String.ofList w.text

/--
Puts the character `c`, standing at `offset`, in front of the words behind it:
into the first of them if that one starts right behind `c`.
-/
def glue
    (offset : Nat)
    (c : Char) :
    List Word → List Word
  | [] => [⟨offset, [c]⟩]
  | w :: ws =>
      if w.offset = offset + c.utf8Size then
        ⟨offset, c :: w.text⟩ :: ws
      else
        ⟨offset, [c]⟩ :: w :: ws

/-- The words of the characters, the first of which stands at `offset`. -/
def splitFrom
    (offset : Nat) :
    List Char → List Word
  | [] => []
  | c :: cs =>
      if isBlank c then
        splitFrom (offset + c.utf8Size) cs
      else
        glue offset c (splitFrom (offset + c.utf8Size) cs)

/-- The words of a text, in order. -/
def split (source : String) : List Word :=
  splitFrom 0 source.toList

end Word

/-- Words written one after the other with a single space between neighbours. -/
def joinWords (words : List (List Char)) : List Char :=
  List.intercalate [' '] words

end Text
end CometLang
