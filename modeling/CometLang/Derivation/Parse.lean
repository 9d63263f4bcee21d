import CometLang.Derivation.State

/-!
# Parsing

A program is accepted when its tokens reduce to whole items. If they do not,
the rules for arithmetic are tried once more, on a copy of the state, with the
end of the program as a settled end: a program that is one arithmetic
expression is accepted that way.
-/

namespace CometLang
namespace Derivation

/-- How a parse went. -/
structure Outcome where
  /-- The state that the tokens reduce to. -/
  primary : State
  /-- The second attempt, if there was one, and how many reductions it fired. -/
  attempt : Option (State × Nat)
  verdict : Verdict
  /-- The state that the verdict is about, closed by its record. -/
  state : State
deriving Repr

/-- The state with the verdict recorded. -/
def State.close
    (s : State)
    (v : Verdict) : State :=
  { s with trace := .verdict v :: s.trace }

/-- Parses a list of tokens. -/
def parse (tokens : List Token) : Outcome :=
  let primary := (State.start tokens).settle
  if primary.isAccepting then
    ⟨primary, none, .accept, primary.close .accept⟩
  else
    let attempt := primary.reduce .fallback
    if attempt.1.isSingleArithmetic then
      ⟨primary, some attempt, .accept, attempt.1.close .accept⟩
    else
      ⟨primary, some attempt, .reject, primary.close .reject⟩

namespace Outcome

/-- The parse tree. -/
def tree (o : Outcome) : Tree :=
  o.state.tree

end Outcome
end Derivation
end CometLang
