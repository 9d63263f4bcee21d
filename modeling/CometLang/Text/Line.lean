import CometLang.Text.Word

/-!
# Lines of a text

Every line keeps the newline that ends it. A byte offset inside a text belongs
to exactly one line; looking it up gives that line, its number counted from
one, and the column of the offset in bytes.
-/

namespace CometLang
namespace Text

/-- A line of a text together with a place in it. -/
structure Line where
  number : Nat
  text : List Char
  column : Nat
deriving DecidableEq, Repr

/-- The lines of a text, each with the newline that ends it. -/
def lines : List Char → List (List Char)
  | [] => []
  | c :: cs =>
      if c = '\n' then
        [c] :: lines cs
      else
        match lines cs with
        | [] => [[c]]
        | line :: rest => (c :: line) :: rest

/-- The lines one after the other are the text. -/
@[simp] theorem flatten_lines
    (cs : List Char) :
    (lines cs).flatten = cs := by
  induction cs with
  | nil =>
      rfl
  | cons c cs ih =>
      rw [lines]
      split
      · simp [ih]
      · split
        · next h =>
            rw [h] at ih
            simpa using ih
        · next line rest h =>
            rw [h] at ih
            simpa using ih

namespace Line

/--
Walks the lines, the first of which has the given number, to the one that
holds the byte `offset`, counted from its start.
-/
def locate
    (number offset : Nat) :
    List (List Char) → Option Line
  | [] => none
  | line :: rest =>
      if offset < byteLength line then
        some ⟨number, line, offset⟩
      else
        locate (number + 1) (offset - byteLength line) rest

/-- The line that holds a byte offset, if the text is long enough. -/
def at?
    (content : String)
    (offset : Nat) : Option Line :=
  locate 1 offset (lines content.toList)

end Line

end Text
end CometLang
