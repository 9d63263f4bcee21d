import CometLang.Evaluation.Operand

/-!
# Arithmetic

An arithmetic expression is evaluated from its tokens: operands with operators
between them. All operands are read first, from left to right. Then products
and quotients are formed from left to right, and at last sums and differences.
Results wrap around at 64 bits, and a quotient is cut off toward zero.

Each operation that is carried out leaves a step behind, for the log.
-/

namespace CometLang
namespace Evaluation

/-- One operation that was carried out. -/
structure Step where
  left : Int64
  operator : String
  right : Int64
  result : Int64
deriving DecidableEq, Repr

/-- An operator and the value at its right. -/
abbrev Operation :=
  Token × Int64

/-- The operators and operands behind the first operand. -/
def readOperations
    (scopes : Scopes) :
    List Token → Except Fault (List Operation)
  | [] => .ok []
  | [operator] =>
      .error (malformed "operator is missing its right operand" operator.position)
  | operator :: operand :: rest => do
      if operator.kind.isArithmetic then
        let value ← operandValue operand scopes
        let operations ← readOperations scopes rest
        return (operator, value) :: operations
      else
        throw (malformed
          ("`" ++ operator.value ++ "` is not an arithmetic operator") operator.position)

/-- The value of the first operand, and the operations behind it. -/
def readOperands
    (scopes : Scopes) :
    List Token → Except Fault (Int64 × List Operation)
  | [] => .error (malformed "empty arithmetic expression" Position.unknown)
  | first :: rest => do
      let value ← operandValue first scopes
      let operations ← readOperations scopes rest
      return (value, operations)

/-- A product or a quotient. -/
def multiply
    (operator : Token)
    (left right : Int64) : Except Fault Int64 :=
  if operator.kind = .star then
    .ok (left * right)
  else if right = 0 then
    .error ⟨.divisionByZero, operator.position⟩
  else
    .ok (left / right)

/-- A sum or a difference. -/
def add
    (operator : Token)
    (left right : Int64) : Int64 :=
  if operator.kind = .plus then left + right else left - right

/--
Forms the products and quotients of a sequence that starts with the value
`left`. What is left are the first value and the operations between terms.
-/
def formTerms
    (left : Int64) :
    List Operation → List Step × Except Fault (Int64 × List Operation)
  | [] => ([], .ok (left, []))
  | (operator, right) :: rest =>
      if operator.kind.isMultiplicative then
        match multiply operator left right with
        | .error fault => ([], .error fault)
        | .ok result =>
            let (steps, terms) := formTerms result rest
            (⟨left, operator.value, right, result⟩ :: steps, terms)
      else
        let (steps, terms) := formTerms right rest
        (steps, terms.map fun (term, more) => (left, (operator, term) :: more))

/-- Adds up terms from left to right. -/
def addTerms
    (left : Int64) :
    List Operation → List Step × Int64
  | [] => ([], left)
  | (operator, right) :: rest =>
      let result := add operator left right
      let (steps, total) := addTerms result rest
      (⟨left, operator.value, right, result⟩ :: steps, total)

/-- The steps and the value of a sequence of tokens. -/
def computeTokens
    (scopes : Scopes)
    (tokens : List Token) : List Step × Except Fault Int64 :=
  match readOperands scopes tokens with
  | .error fault => ([], .error fault)
  | .ok (first, operations) =>
      match formTerms first operations with
      | (steps, .error fault) => (steps, .error fault)
      | (steps, .ok (term, more)) =>
          let (additions, total) := addTerms term more
          (steps ++ additions, .ok total)

/-- The steps and the value of an arithmetic expression. -/
def compute
    (t : Tree)
    (scopes : Scopes) : List Step × Except Fault Int64 :=
  computeTokens scopes t.leaves

/-- The value of an arithmetic expression. -/
def arithmetic
    (t : Tree)
    (scopes : Scopes) : Except Fault Int64 :=
  (compute t scopes).2

end Evaluation
end CometLang
