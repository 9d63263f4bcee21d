import CometLang.Derivation.Stack
import CometLang.Derivation.Trace
import CometLang.Derivation.Tree
import CometLang.Grammar.Reduction

/-!
# Derivation states

A state holds the tokens still to come, the stack, the tree built so far and
the trace. The children of the tree's root run parallel to the stack. Three
things can happen to a state: a token is shifted onto the stack, one production
fires, or productions fire until none applies.

How often productions can still fire is bounded by the weight of the stack:
each of them replaces its window by a lighter symbol.
-/

namespace CometLang

/-- The weight of a symbol: how often it can be part of a reduction. -/
def Symbol.weight : Symbol → Nat
  | .terminal _ => 5
  | .nonterminal form =>
      match form with
      | .identifier | .cometLiteral | .string => 4
      | .relationalOp | .logicalOp | .relationalExp | .logicalExp => 4
      | .factor => 3
      | .term => 2
      | .expr => 0
      | _ => 1

/-- The weight of several symbols. -/
def symbolsWeight : List Symbol → Nat
  | [] => 0
  | s :: rest => s.weight + symbolsWeight rest

/-- The weights of two lists of symbols add up. -/
@[simp] theorem symbolsWeight_append
    (xs ys : List Symbol) :
    symbolsWeight (xs ++ ys) = symbolsWeight xs + symbolsWeight ys := by
  induction xs with
  | nil =>
      simp [symbolsWeight]
  | cons x xs ih =>
      simp [symbolsWeight, ih, Nat.add_assoc]

/-- The weight of the symbols on a stack. -/
def Stack.weight (stack : Stack) : Nat :=
  symbolsWeight stack.symbols

namespace Derivation

/-- The tokens to come, the symbols at hand, and what was done so far. -/
structure State where
  pending : List Token
  stack : Stack
  tree : Tree
  /-- What was done, latest first. -/
  trace : List Record
deriving Repr

namespace State

/-- The state before anything is done, with one slot for each token. -/
def start (tokens : List Token) : State :=
  ⟨tokens, Stack.withCapacity tokens.length, Tree.program, []⟩

/-- What was done, in order. -/
def records (s : State) : List Record :=
  s.trace.reverse

/-- The symbols at hand. -/
def symbols (s : State) : List Symbol :=
  s.stack.symbols

/-- Puts a token onto the stack and into the tree; `rest` is still to come. -/
def shiftToken
    (s : State)
    (token : Token)
    (rest : List Token) : State :=
  let stack := s.stack.push (.terminal token)
  { pending := rest
    stack := stack
    tree := s.tree.addChild (Tree.leaf token)
    trace := .shift token stack.symbols :: s.trace }

/-- Shifts the next token, if there is one. -/
def shift? (s : State) : Option State :=
  match s.pending with
  | [] => none
  | token :: rest => some (s.shiftToken token rest)

/-- Carries out a reduction by the given production on stack and tree. -/
def fire?
    (s : State)
    (p : Production)
    (r : Reduction) : Option State := do
  let stack ← s.stack.reduce? r.start r.width r.lhs
  let tree ← s.tree.collapse? r.start r.width r.lhs
  return { s with
    stack := stack
    tree := tree
    trace := .reduce p stack.symbols (s.symbols.drop r.start) :: s.trace }

/-- Fires the first production that applies. -/
def step?
    (mode : Mode)
    (s : State) : Option (State × Reduction) := do
  let (p, r) ← nextReduction? mode s.symbols
  let s' ← s.fire? p r
  return (s', r)

/-- Fires productions until none applies, at most `fuel` times, and counts them. -/
def reduceWithin
    (mode : Mode) :
    Nat → State → State × Nat
  | 0, s => (s, 0)
  | fuel + 1, s =>
      match s.step? mode with
      | none => (s, 0)
      | some (s', _) =>
          let (last, count) := reduceWithin mode fuel s'
          (last, count + 1)

/-- Fires productions until none applies, and counts how many fired. -/
def reduce
    (mode : Mode)
    (s : State) : State × Nat :=
  reduceWithin mode s.stack.weight s

/-- Every symbol at hand is a whole item of a program. -/
def isAccepting (s : State) : Bool :=
  s.symbols.all Symbol.isAccepting

/-- The symbols at hand are one arithmetic expression. -/
def isSingleArithmetic (s : State) : Bool :=
  match s.symbols with
  | [symbol] => symbol.isForm .arithExp
  | _ => false

/-- Shifts the tokens one by one, and reduces after each of them. -/
def feed : State → List Token → State
  | s, [] => s
  | s, token :: rest => feed ((s.shiftToken token rest).reduce .primary).1 rest

/-- The state when all tokens are shifted and no production applies. -/
def settle (s : State) : State :=
  ((s.feed s.pending).reduce .primary).1

end State
end Derivation
end CometLang
