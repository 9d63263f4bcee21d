import CometLang.Fault
import CometLang.Token.Basic

/-!
# Tags

A tag names a whole token in one word. Fixed kinds have fixed tags; an
identifier is marked by `id_`, a comet literal by `cmt_` or `comet_`, and a
string is its own tag. The fixed tags are tried first, so that the keyword tag
`comet_token` is never taken for a literal.
-/

namespace CometLang

/-- An optional minus sign and at least one decimal digit of ASCII. -/
def isCometLiteral (cs : List Char) : Bool :=
  let digits := match cs with
    | '-' :: rest => rest
    | _ => cs
  !digits.isEmpty && digits.all Char.isDigit

/-- Starts and ends with a double quote, and these are two characters. -/
def isClosedString (cs : List Char) : Bool :=
  2 ≤ cs.length && cs.head? == some '"' && cs.getLast? == some '"'

namespace Token

/-- The name behind the marker of an identifier tag. -/
def identifierOfTag? (tag : List Char) : Option (List Char) :=
  ("id_".toList.isPrefixOf? tag).filter fun name => !name.isEmpty

/-- The text behind one of the two markers of a literal tag. -/
def literalOfTag? (tag : List Char) : Option (List Char) :=
  (("cmt_".toList.isPrefixOf? tag).or ("comet_".toList.isPrefixOf? tag)).filter
    isCometLiteral

/-- The kind and the value that a tag names. -/
def readTag? (tag : String) : Option (Kind × String) :=
  match Kind.ofTag? tag with
  | some kind => some (kind, kind.lexeme?.getD "")
  | none =>
      if isClosedString tag.toList then
        some (.string, tag)
      else
        match identifierOfTag? tag.toList with
        | some name => some (.identifier, String.ofList name)
        | none =>
            (literalOfTag? tag.toList).map fun literal =>
              (.cometLiteral, String.ofList literal)

/-- The token that a tag at the given place names; its span covers the tag. -/
def ofTag
    (tag : String)
    (position : Position) : Except Fault Token :=
  match readTag? tag with
  | some (kind, value) =>
      .ok ⟨kind, value, Span.ofLength position tag.utf8ByteSize⟩
  | none =>
      .error ⟨.malformedTag tag, position⟩

end Token
end CometLang
