import CometLang.Derivation.Tree
import CometLang.Numeral.Whole
import CometLang.Scope.Stack

/-!
# Operands

An operand of an expression is an identifier, which stands for the text it is
bound to, or a comet literal, which stands for itself. Arithmetic reads the
text as a whole number.
-/

namespace CometLang
namespace Evaluation

/-- The fault of a tree that has not the shape its phrase should have. -/
def malformed
    (message : String)
    (position : Position) : Fault :=
  ⟨.malformedExpression message, position⟩

/-- The fault of a text that is no number. -/
def notANumber
    (text : String)
    (position : Position) : Fault :=
  ⟨.typeMismatch "a comet (integer)" text, position⟩

/-- Where the first token of a tree stands. -/
def treePosition (t : Tree) : Position :=
  match t.leaves with
  | token :: _ => token.position
  | [] => Position.unknown

/-- The first token of a tree. -/
def leafToken (t : Tree) : Except Fault Token :=
  match t.leaves with
  | token :: _ => .ok token
  | [] => .error (malformed "expected a token" Position.unknown)

/-- The whole number that a text writes. -/
def wholeOf
    (text : String)
    (position : Position) : Except Fault Int64 :=
  match Numeral.wholeOf? text with
  | some value => .ok value
  | none => .error (notANumber text position)

/-- The text that an operand stands for. -/
def operandText
    (token : Token)
    (scopes : Scopes) : Except Fault String :=
  match token.kind with
  | .identifier => scopes.resolve token.value token.position
  | .cometLiteral => .ok token.value
  | _ => .error (malformed ("`" ++ token.value ++ "` is not an operand") token.position)

/-- The whole number that an operand stands for. -/
def operandValue
    (token : Token)
    (scopes : Scopes) : Except Fault Int64 := do
  let text ← operandText token scopes
  wholeOf text token.position

end Evaluation
end CometLang
