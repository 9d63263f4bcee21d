import CometLang.Position
import CometLang.Text.Quoted

/-!
# Faults

Everything that can stop a program from being read or run: a cause and the
place it is blamed on. The cause fixes the name, the message and the tip.
-/

namespace CometLang

/-- Why a program cannot be read or cannot go on. -/
inductive Cause where
  | unrecognisedToken (token : String)
  | reservedWordMisuse (word keyword : String)
  | unterminatedString (text : String)
  | unterminatedComment
  | malformedTag (tag : String)
  | alreadyDeclared (identifier : String)
  | undeclared (identifier : String)
  | divisionByZero
  | typeMismatch (expected received : String)
  | loopLimitExceeded (limit : Nat)
  | malformedExpression (message : String)
  | inputExhausted
  | io (message : String)
deriving DecidableEq, Repr

namespace Cause

/-- The kind of the cause, one word. -/
def name : Cause → String
  | unrecognisedToken _ => "UnrecognisedToken"
  | reservedWordMisuse _ _ => "ReservedWordMisuse"
  | unterminatedString _ => "UnterminatedString"
  | unterminatedComment => "UnterminatedComment"
  | malformedTag _ => "MalformedTag"
  | alreadyDeclared _ => "AlreadyDeclared"
  | undeclared _ => "Undeclared"
  | divisionByZero => "DivisionByZero"
  | typeMismatch _ _ => "TypeMismatch"
  | loopLimitExceeded _ => "LoopIterationLimitExceeded"
  | malformedExpression _ => "MalformedExpression"
  | inputExhausted => "InputExhausted"
  | io _ => "Io"

/-- What happened, with the texts involved quoted. -/
def message : Cause → String
  | unrecognisedToken token =>
      "unrecognised token: " ++ Text.quoted token
  | reservedWordMisuse word keyword =>
      "reserved word " ++ Text.quoted word ++ " used as identifier (keyword is "
        ++ Text.quoted keyword ++ ")"
  | unterminatedString text =>
      "unterminated string: " ++ Text.quoted text
  | unterminatedComment =>
      "unterminated comment"
  | malformedTag tag =>
      "malformed token tag: " ++ Text.quoted tag
  | alreadyDeclared identifier =>
      "variable " ++ Text.quoted identifier ++ " already declared in this scope"
  | undeclared identifier =>
      "variable " ++ Text.quoted identifier ++ " not declared"
  | divisionByZero =>
      "division by zero"
  | typeMismatch expected received =>
      "type mismatch: expected " ++ expected ++ ", received " ++ Text.quoted received
  | loopLimitExceeded limit =>
      "loop exceeded " ++ toString limit ++ " iterations"
  | malformedExpression message =>
      "malformed expression: " ++ message
  | inputExhausted =>
      "input exhausted"
  | io message =>
      "i/o error: " ++ message

/-- What to do about it, where there is something to say. -/
def tip? : Cause → Option String
  | unrecognisedToken _ =>
      none
  | reservedWordMisuse word keyword =>
      some ("`" ++ word ++ "` is reserved, did you mean `" ++ keyword ++ "`?")
  | unterminatedString text =>
      some ("String `" ++ text ++ "` is missing its closing quote")
  | unterminatedComment =>
      some "Comment is missing its closing `*/`"
  | malformedTag tag =>
      some ("`" ++ tag ++ "` is not a classified token")
  | alreadyDeclared identifier =>
      some ("Variable `" ++ identifier ++ "` has already been declared in the current scope")
  | undeclared identifier =>
      some ("Variable `" ++ identifier ++ "` has not been declared")
  | divisionByZero =>
      some "Divisor evaluated to zero"
  | typeMismatch expected received =>
      some ("Expected " ++ expected ++ ", received `" ++ received ++ "`")
  | loopLimitExceeded limit =>
      some ("Loop ran more than " ++ toString limit
        ++ " iterations, is its guard ever false?")
  | malformedExpression message =>
      some message
  | inputExhausted =>
      some "Input ended before a value was received"
  | io message =>
      some message

end Cause

/-- A cause and the place it is blamed on. -/
structure Fault where
  cause : Cause
  position : Position
deriving DecidableEq, Repr

end CometLang
