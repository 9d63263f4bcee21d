import CometLang.Grammar.Symbol

/-!
# The production catalog

A production gathers a window of neighbouring symbols into a phrase. Its
right-hand side says what the symbols of the window are, and its surroundings
say what may stand before and behind it. Most right-hand sides have a fixed
width; a logical chain and a block are as long as they can be.

The catalog is ordered: where several productions apply, the first one wins.
-/

namespace CometLang

/-- What one place of a right-hand side may hold. -/
inductive Expect where
  | kind (kind : Kind)
  | form (form : Nonterminal)
  /-- What a variable can be set to. -/
  | value
  /-- An identifier or a comet literal. -/
  | operand
  /-- What can be transmitted. -/
  | ioArgument
  /-- What can be asked of the variables. -/
  | condition
  /-- A complete statement, or an arithmetic expression. -/
  | item
  | relational
  | logical
  | additive
  | multiplicative
deriving DecidableEq, Repr

namespace Expect

/-- The symbol may stand at the place. -/
def admits : Expect → Symbol → Bool
  | kind k, s => s.isKind k
  | form n, s => s.isForm n
  | value, s => s.isForm .identifier || s.isForm .cometLiteral || s.isForm .arithExp
  | operand, s => s.isForm .identifier || s.isForm .cometLiteral
  | ioArgument, s => s.isForm .string || s.isForm .identifier
  | condition, s => s.isForm .relationalExp || s.isForm .logicalExp
  | item, s =>
      s.isForm .receptionStmt || s.isForm .transmissionStmt || s.isForm .assignStmt
        || s.isForm .decStmt || s.isForm .orbitStmt || s.isForm .whirlLoop
        || s.isForm .launchWhirlLoop || s.isForm .arithExp
  | relational, s => s.kind?.any Kind.isRelational
  | logical, s => s.kind?.any Kind.isLogical
  | additive, s => s.isAdditive
  | multiplicative, s => s.isMultiplicative

end Expect

/-- The symbols of a window. -/
inductive Rhs where
  /-- One symbol for each place, in order. -/
  | sequence (places : List Expect)
  /-- Comparisons with connectives between them, two comparisons at least. -/
  | chain
  /-- A brace, one expression at least, and the closing brace. -/
  | block
deriving DecidableEq, Repr

namespace Rhs

/-- The symbols start with one for each place, in order. -/
def fits : List Expect → List Symbol → Bool
  | [], _ => true
  | _ :: _, [] => false
  | place :: places, s :: symbols => place.admits s && fits places symbols

/-- How often a connective and a comparison follow each other. -/
def links : List Symbol → Nat
  | op :: comparison :: rest =>
      if op.isForm .logicalOp && comparison.isForm .relationalExp then
        links rest + 1
      else
        0
  | _ => 0

/-- How many expressions stand in front. -/
def expressions (symbols : List Symbol) : Nat :=
  (symbols.takeWhile (·.isForm .expr)).length

/-- The width of the window with this right-hand side at the front. -/
def width? : Rhs → List Symbol → Option Nat
  | sequence places, symbols =>
      if fits places symbols then some places.length else none
  | chain, [] => none
  | chain, s :: rest =>
      if s.isForm .relationalExp && 0 < links rest then
        some (2 * links rest + 1)
      else
        none
  | block, [] => none
  | block, s :: rest =>
      if s.isKind .openBrace && 0 < expressions rest
          && rest[expressions rest]?.any (·.isKind .closeBrace) then
        some (expressions rest + 2)
      else
        none

end Rhs

/-- Whether more input may follow the symbols at hand. -/
inductive Mode where
  /-- More tokens may come: a rule that looks ahead waits for them. -/
  | primary
  /-- The input has ended: the end settles what looks ahead. -/
  | fallback
deriving DecidableEq, Repr

/-- What stands behind a window. -/
inductive Next where
  | symbol (s : Symbol)
  | pending
  | finished
deriving DecidableEq, Repr

namespace Next

/-- What stands at an index, in a mode that says what the end means. -/
def of
    (symbols : List Symbol)
    (index : Nat)
    (mode : Mode) : Next :=
  match symbols[index]?, mode with
  | some s, _ => symbol s
  | none, .primary => pending
  | none, .fallback => finished

/-- It is known, and a term in front of it can no longer grow. -/
def endsTerm : Next → Bool
  | symbol s => !s.isMultiplicative
  | pending => false
  | finished => true

/-- It is a symbol with the given property. -/
def isSymbol
    (next : Next)
    (p : Symbol → Bool) : Bool :=
  match next with
  | symbol s => p s
  | _ => false

end Next

/-- The rules of the grammar, in the order in which they are tried. -/
inductive Production where
  | string
  | identifier
  | cometLiteral
  | declaration
  | assignment
  | ioStatement
  | transmission
  | reception
  | relationalOperator
  | logicalOperator
  | relationalExpression
  | logicalExpression
  | conditionalExpression
  | factor
  | termProduct
  | term
  | arithmeticSum
  | arithmeticExpression
  | block
  | navigate
  | propel
  | orbit
  | orbitPropel
  | orbitNavigatePropel
  | whirlLoop
  | launchWhirlLoop
  | expression
deriving DecidableEq, Repr

namespace Production

/-- Every production, the first to be tried first. -/
def all : List Production :=
  [string, identifier, cometLiteral, declaration, assignment, ioStatement,
   transmission, reception, relationalOperator, logicalOperator,
   relationalExpression, logicalExpression, conditionalExpression,
   factor, termProduct, term, arithmeticSum, arithmeticExpression,
   block, navigate, propel, orbit, orbitPropel, orbitNavigatePropel,
   whirlLoop, launchWhirlLoop, expression]

/-- The name under which a production is traced. -/
def name : Production → String
  | string => "string"
  | identifier => "identifier"
  | cometLiteral => "comet_literal"
  | declaration => "decStmt"
  | assignment => "assignStmt"
  | ioStatement => "ioStmt"
  | transmission => "transmissionStmt"
  | reception => "receptionStmt"
  | relationalOperator => "relationalOp"
  | logicalOperator => "logicalOp"
  | relationalExpression => "relationalExp"
  | logicalExpression => "logicalExp"
  | conditionalExpression => "conditionalExp"
  | factor => "factor"
  | termProduct => "term_product"
  | term => "term"
  | arithmeticSum => "arithExp_sum"
  | arithmeticExpression => "arithExp"
  | block => "stmt"
  | navigate => "navigateStmt"
  | propel => "propelStmt"
  | orbit => "orbitStmt"
  | orbitPropel => "orbitStmt_propel"
  | orbitNavigatePropel => "orbitStmt_navigate_propel"
  | whirlLoop => "whirlLoop"
  | launchWhirlLoop => "launchWhirlLoop"
  | expression => "expr"

/-- The phrase that the window becomes. -/
def lhs : Production → Nonterminal
  | string => .string
  | identifier => .identifier
  | cometLiteral => .cometLiteral
  | declaration => .decStmt
  | assignment => .assignStmt
  | ioStatement => .ioStmt
  | transmission => .transmissionStmt
  | reception => .receptionStmt
  | relationalOperator => .relationalOp
  | logicalOperator => .logicalOp
  | relationalExpression => .relationalExp
  | logicalExpression => .logicalExp
  | conditionalExpression => .conditionalExp
  | factor => .factor
  | termProduct | term => .term
  | arithmeticSum | arithmeticExpression => .arithExp
  | block => .stmt
  | navigate => .navigateStmt
  | propel => .propelStmt
  | orbit | orbitPropel | orbitNavigatePropel => .orbitStmt
  | whirlLoop => .whirlLoop
  | launchWhirlLoop => .launchWhirlLoop
  | expression => .expr

/-- The symbols of the window. -/
def rhs : Production → Rhs
  | string => .sequence [.kind .string]
  | identifier => .sequence [.kind .identifier]
  | cometLiteral => .sequence [.kind .cometLiteral]
  | declaration =>
      .sequence
        [.kind .comet, .form .identifier, .kind .assignment, .value, .kind .semicolon]
  | assignment =>
      .sequence [.form .identifier, .kind .assignment, .value, .kind .semicolon]
  | ioStatement =>
      .sequence [.kind .openParen, .ioArgument, .kind .closeParen, .kind .semicolon]
  | transmission => .sequence [.kind .transmission, .form .ioStmt]
  | reception =>
      .sequence
        [.form .identifier, .kind .assignment, .kind .reception, .form .ioStmt]
  | relationalOperator => .sequence [.relational]
  | logicalOperator => .sequence [.logical]
  | relationalExpression => .sequence [.operand, .form .relationalOp, .operand]
  | logicalExpression => .chain
  | conditionalExpression =>
      .sequence [.kind .openParen, .condition, .kind .closeParen]
  | factor => .sequence [.operand]
  | termProduct => .sequence [.form .term, .multiplicative, .form .factor]
  | term => .sequence [.form .factor]
  | arithmeticSum => .sequence [.form .arithExp, .additive, .form .term]
  | arithmeticExpression => .sequence [.form .term]
  | block => .block
  | navigate => .sequence [.kind .navigate, .form .conditionalExp, .form .stmt]
  | propel => .sequence [.kind .propel, .form .stmt]
  | orbit =>
      .sequence [.kind .orbit, .form .conditionalExp, .form .stmt, .kind .semicolon]
  | orbitPropel =>
      .sequence
        [.kind .orbit, .form .conditionalExp, .form .stmt, .form .propelStmt,
         .kind .semicolon]
  | orbitNavigatePropel =>
      .sequence
        [.kind .orbit, .form .conditionalExp, .form .stmt, .form .navigateStmt,
         .form .propelStmt, .kind .semicolon]
  | whirlLoop =>
      .sequence [.kind .whirl, .form .conditionalExp, .form .stmt, .kind .semicolon]
  | launchWhirlLoop =>
      .sequence
        [.kind .launch, .form .stmt, .kind .whirl, .form .conditionalExp,
         .kind .semicolon]
  | expression => .sequence [.item]

/-- One of the rules that build arithmetic expressions out of operands. -/
def isArithmetic : Production → Bool
  | factor | termProduct | term | arithmeticSum | arithmeticExpression => true
  | _ => false

/--
What the surroundings of a window must be: the symbol before it, the first
symbol inside, and what stands behind it.

An operand becomes a factor only beside an operator. A factor behind `*` or `/`
waits for the product it belongs to. A sum, and a leading term, wait until the
term at their end cannot grow. A chain starts where no connective precedes it
and ends at a closing parenthesis. An arithmetic expression is an item once
something other than an operator follows it.
-/
def allows
    (p : Production)
    (before inside : Option Symbol)
    (next : Next) : Bool :=
  match p with
  | logicalExpression =>
      !before.any (·.isForm .logicalOp) && next.isSymbol (·.isKind .closeParen)
  | factor => before.any Symbol.isArithmetic || next.isSymbol Symbol.isArithmetic
  | term => !before.any Symbol.isMultiplicative
  | arithmeticSum => next.endsTerm
  | arithmeticExpression => !before.any Symbol.isArithmetic && next.endsTerm
  | expression =>
      !inside.any (·.isForm .arithExp) || next.isSymbol fun s => !s.isArithmetic
  | _ => true

/-- The productions that are tried in a mode. -/
def catalog : Mode → List Production
  | .primary => all
  | .fallback => all.filter isArithmetic

end Production
end CometLang
