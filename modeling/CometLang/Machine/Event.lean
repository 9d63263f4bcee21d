import CometLang.Derivation.Parse
import CometLang.Evaluation.Arithmetic

/-!
# Events

What a parse and a run report while they go on, each event with the level at
which it is of interest.
-/

namespace CometLang

/-- How much detail an event belongs to. -/
inductive Level where
  | info
  | debug
  | trace
deriving DecidableEq, Repr

/-- The name of a level. -/
def Level.name : Level → String
  | info => "INFO"
  | debug => "DEBUG"
  | trace => "TRACE"

/-- The detail of a level, from one up. -/
def Level.detail : Level → Nat
  | info => 1
  | debug => 2
  | trace => 3

/-- Something that happened in a parse or in a run. -/
inductive Event where
  | tokenized (count : Nat)
  | shifted (token : Token) (symbols : List Symbol)
  | reduced (production : Production) (symbols : List Symbol)
  | attempted (fired : Nat) (single : Bool)
  | parsed (verdict : Verdict) (symbols : List Symbol)
  | entered (depth : Nat)
  | left (depth bindings : Nat)
  | computed (step : Evaluation.Step)
  | discarded (value : Int64)
  | declared (name value : String)
  | assigned (name value : String)
  | received (name value : String)
  | whirled (iterations : Nat)
  | launched (iterations : Nat)
deriving DecidableEq, Repr

namespace Event

/-- The level of an event. -/
def level : Event → Level
  | tokenized _ | received _ _ => .info
  | shifted _ _ | reduced _ _ | computed _ => .trace
  | _ => .debug

/-- The event in words. -/
def message : Event → String
  | tokenized count =>
      "tokenized " ++ toString count ++ " token(s)"
  | shifted token symbols =>
      "shift " ++ token.tag ++ " -> " ++ symbolsText symbols
  | reduced production symbols =>
      "reduce " ++ production.name ++ " -> " ++ symbolsText symbols
  | attempted fired single =>
      "fallback derivation fired " ++ toString fired ++ " reductions, arithExp: "
        ++ toString single
  | parsed verdict symbols =>
      "parse finished: " ++ verdict.text ++ " with stack [" ++ symbolsText symbols ++ "]"
  | entered depth =>
      "enter scope " ++ toString depth
  | left depth bindings =>
      "exit scope " ++ toString depth ++ " with " ++ toString bindings ++ " binding(s)"
  | computed step =>
      "arithmetic: " ++ Numeral.wholeText step.left ++ " " ++ step.operator ++ " "
        ++ Numeral.wholeText step.right ++ " = " ++ Numeral.wholeText step.result
  | discarded value =>
      "discarding value " ++ Numeral.wholeText value ++ " of a bare arithmetic expression"
  | declared name value =>
      "declared " ++ name ++ " = " ++ value
  | assigned name value =>
      "assigned " ++ name ++ " = " ++ value
  | received name value =>
      "received " ++ name ++ " = " ++ value
  | whirled iterations =>
      "whirl loop finished after " ++ toString iterations ++ " iteration(s)"
  | launched iterations =>
      "launch loop finished after " ++ toString iterations ++ " iteration(s)"

/-- The event of a record of a derivation; the verdict has one of its own. -/
def ofRecord? : Record → Option Event
  | .shift token symbols => some (shifted token symbols)
  | .reduce production symbols _ => some (reduced production symbols)
  | .verdict _ => none

end Event

/-- The events of a parse, those of a second attempt included, in order. -/
def Derivation.Outcome.events (o : Derivation.Outcome) : List Event :=
  match o.attempt with
  | none =>
      o.primary.records.filterMap Event.ofRecord?
        ++ [.parsed o.verdict o.state.symbols]
  | some (attempt, fired) =>
      attempt.records.filterMap Event.ofRecord?
        ++ [.attempted fired attempt.isSingleArithmetic,
            .parsed o.verdict o.state.symbols]

end CometLang
