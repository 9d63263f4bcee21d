import CometLang.Token.Basic

/-!
# Grammar symbols

A symbol of the grammar is a token or one of the phrases that tokens are
gathered into. Every phrase has a name, under which it is shown.
-/

namespace CometLang

/-- A kind of phrase. -/
inductive Nonterminal where
  | identifier
  | cometLiteral
  | string
  | decStmt
  | assignStmt
  | ioStmt
  | transmissionStmt
  | receptionStmt
  | relationalOp
  | logicalOp
  | relationalExp
  | logicalExp
  | conditionalExp
  | expr
  | stmt
  | factor
  | term
  | arithExp
  | navigateStmt
  | propelStmt
  | orbitStmt
  | whirlLoop
  | launchWhirlLoop
deriving DecidableEq, Repr

namespace Nonterminal

/-- Every kind of phrase. -/
def all : List Nonterminal :=
  [.identifier, .cometLiteral, .string, .decStmt, .assignStmt, .ioStmt,
   .transmissionStmt, .receptionStmt, .relationalOp, .logicalOp, .relationalExp,
   .logicalExp, .conditionalExp, .expr, .stmt, .factor, .term, .arithExp,
   .navigateStmt, .propelStmt, .orbitStmt, .whirlLoop, .launchWhirlLoop]

/-- The name of a kind of phrase. -/
def name : Nonterminal → String
  | identifier => "identifier"
  | cometLiteral => "comet_literal"
  | string => "string"
  | decStmt => "decStmt"
  | assignStmt => "assignStmt"
  | ioStmt => "ioStmt"
  | transmissionStmt => "transmissionStmt"
  | receptionStmt => "receptionStmt"
  | relationalOp => "relationalOp"
  | logicalOp => "logicalOp"
  | relationalExp => "relationalExp"
  | logicalExp => "logicalExp"
  | conditionalExp => "conditionalExp"
  | expr => "expr"
  | stmt => "stmt"
  | factor => "factor"
  | term => "term"
  | arithExp => "arithExp"
  | navigateStmt => "navigateStmt"
  | propelStmt => "propelStmt"
  | orbitStmt => "orbitStmt"
  | whirlLoop => "whirlLoop"
  | launchWhirlLoop => "launchWhirlLoop"

/-- A phrase that may stand as a whole item of a finished program. -/
def isAccepting : Nonterminal → Bool
  | decStmt | expr | orbitStmt | whirlLoop | launchWhirlLoop => true
  | _ => false

end Nonterminal

/-- A token or a phrase. -/
inductive Symbol where
  | terminal (token : Token)
  | nonterminal (form : Nonterminal)
deriving DecidableEq, Repr

namespace Symbol

/-- The kind of a token. -/
def kind? : Symbol → Option Kind
  | terminal token => some token.kind
  | nonterminal _ => none

/-- The kind of a phrase. -/
def form? : Symbol → Option Nonterminal
  | terminal _ => none
  | nonterminal form => some form

/-- A phrase of the given kind. -/
def isForm
    (s : Symbol)
    (form : Nonterminal) : Bool :=
  s.form? == some form

/-- A token of the given kind. -/
def isKind
    (s : Symbol)
    (kind : Kind) : Bool :=
  s.kind? == some kind

/-- A token that is one of the four arithmetic operators. -/
def isArithmetic (s : Symbol) : Bool :=
  s.kind?.any Kind.isArithmetic

/-- A token that is an operator between terms. -/
def isAdditive (s : Symbol) : Bool :=
  s.kind?.any Kind.isAdditive

/-- A token that is an operator between factors. -/
def isMultiplicative (s : Symbol) : Bool :=
  s.kind?.any Kind.isMultiplicative

/-- A phrase that may stand as a whole item of a finished program. -/
def isAccepting (s : Symbol) : Bool :=
  s.form?.any Nonterminal.isAccepting

/-- The tag of a token, or the name of a phrase. -/
def text : Symbol → String
  | terminal token => token.tag
  | nonterminal form => form.name

end Symbol

/-- Symbols one after the other, with single spaces between them. -/
def symbolsText (symbols : List Symbol) : String :=
  String.intercalate " " (symbols.map Symbol.text)

end CometLang
