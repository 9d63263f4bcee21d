import CometLang.Evaluation.Operand
import CometLang.Numeral.Double

/-!
# Conditions

A comparison reads its operands as numbers in double precision. A logical chain
evaluates every comparison in it before it joins them, from left to right. A
condition is a chain or a single comparison, in parentheses.
-/

namespace CometLang
namespace Evaluation

open Numeral

/-- The number that an operand of a comparison stands for. -/
def comparand
    (t : Tree)
    (scopes : Scopes) : Except Fault Double := do
  let token ← leafToken t
  let text ← operandText token scopes
  match Double.ofText? text with
  | some value => return value
  | none => throw (notANumber text token.position)

/-- What a comparison says of two numbers; only comparisons say anything. -/
def compareBy? (kind : Kind) (left right : Double) : Option Bool :=
  let order := left.compare? right
  match kind with
  | .equals => some (order == some .eq)
  | .notEquals => some (order != some .eq)
  | .less => some (order == some .lt)
  | .lessEquals => some (order == some .lt || order == some .eq)
  | .greater => some (order == some .gt)
  | .greaterEquals => some (order == some .gt || order == some .eq)
  | _ => none

/-- The given part of a phrase, or the fault that it is not there. -/
def require
    {α : Type}
    (part : Option α)
    (message : String)
    (position : Position) : Except Fault α :=
  match part with
  | some a => .ok a
  | none => .error (malformed message position)

/-- The children that can be compared. -/
def comparands (t : Tree) : List Tree :=
  t.children.filter fun child => child.isForm .identifier || child.isForm .cometLiteral

/-- The truth of a comparison. -/
def relational
    (t : Tree)
    (scopes : Scopes) : Except Fault Bool := do
  let position := treePosition t
  let left ← require (comparands t)[0]?
    "relational expression has no left operand" position
  let right ← require (comparands t)[1]?
    "relational expression has no right operand" position
  let operator ← require (t.child? .relationalOp)
    "relational expression has no operator" position
  let leftValue ← comparand left scopes
  let rightValue ← comparand right scopes
  let token ← leafToken operator
  require (compareBy? token.kind leftValue rightValue)
    "unknown relational operator" position

/-- Joins truth values from left to right. -/
def joinTruths
    (position : Position)
    (truth : Bool) :
    List (Kind × Bool) → Except Fault Bool
  | [] => .ok truth
  | (.and, other) :: rest => joinTruths position (truth && other) rest
  | (.or, other) :: rest => joinTruths position (truth || other) rest
  | _ => .error (malformed "unknown logical operator" position)

/-- The truth of a logical chain. -/
def logical
    (t : Tree)
    (scopes : Scopes) : Except Fault Bool := do
  let position := treePosition t
  let truths ← (t.children.filter (·.isForm .relationalExp)).mapM
    fun child => relational child scopes
  let operators ← (t.children.filter (·.isForm .logicalOp)).mapM
    fun child => (leafToken child).map Token.kind
  match truths with
  | first :: others =>
      if others.length = operators.length then
        joinTruths position first (operators.zip others)
      else
        throw (malformed "logical expression is missing an operand" position)
  | [] => throw (malformed "logical expression is missing an operand" position)

/-- The truth of a condition. -/
def condition
    (t : Tree)
    (scopes : Scopes) : Except Fault Bool :=
  match t.child? .logicalExp with
  | some chain => logical chain scopes
  | none =>
      match t.child? .relationalExp with
      | some comparison => relational comparison scopes
      | none => .error (malformed "condition has no expression" (treePosition t))

end Evaluation
end CometLang
