import CometLang.Grammar.Production

/-!
# Traces

A record of a derivation says what was done and which symbols were at hand
afterwards. A reduction also records the symbols from the start of its window
to the end of the stack, as they were before.
-/

namespace CometLang

/-- Whether a program belongs to the language. -/
inductive Verdict where
  | accept
  | reject
deriving DecidableEq, Repr

/-- The verdict as it is announced. -/
def Verdict.text : Verdict → String
  | accept => "ACCEPT"
  | reject => "REJECT"

/-- One thing that happened in a derivation. -/
inductive Record where
  | shift (token : Token) (symbols : List Symbol)
  | reduce (production : Production) (symbols window : List Symbol)
  | verdict (verdict : Verdict)
deriving DecidableEq, Repr

namespace Record

/-- The record as a line. -/
def text : Record → String
  | shift token symbols =>
      "SHIFT " ++ token.tag ++ " -> " ++ symbolsText symbols
  | reduce _ symbols window =>
      "REDUCE TO " ++ symbolsText symbols ++ " <- " ++ symbolsText window
  | verdict v => v.text

/-- The production that fired. -/
def production? : Record → Option Production
  | reduce production _ _ => some production
  | _ => none

end Record
end CometLang
