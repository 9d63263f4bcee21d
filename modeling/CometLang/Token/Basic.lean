import CometLang.Position
import CometLang.Token.Kind

/-!
# Tokens

A token is a kind, the text it was written as, and the stretch of the file it
stands in. A string keeps its quotes as part of its value.
-/

namespace CometLang

/-- A classified piece of a program. -/
structure Token where
  kind : Kind
  value : String
  span : Span
deriving DecidableEq, Repr

namespace Token

/-- The place of the first byte. -/
def position (t : Token) : Position :=
  t.span.start

/-- The token as one word: a value behind its marker, or the tag of its kind. -/
def tag (t : Token) : String :=
  match t.kind with
  | .identifier => "id_" ++ t.value
  | .cometLiteral => "cmt_" ++ t.value
  | .string => t.value
  | kind => kind.tag?.getD ""

/-- The characters of a text that are not double quotes. -/
def withoutQuotes (value : String) : String :=
  String.ofList (value.toList.filter (· != '"'))

/-- What the token stands for: a string without its quotes, else the value. -/
def text (t : Token) : String :=
  match t.kind with
  | .string => withoutQuotes t.value
  | _ => t.value

end Token
end CometLang
