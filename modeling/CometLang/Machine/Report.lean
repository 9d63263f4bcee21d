import CometLang.Machine.Execution
import CometLang.Token.Scan

/-!
# Whole runs

A whole run reads the tokens of a program, parses them, and runs the tree if
the program is accepted. The report says how far it came.
-/

namespace CometLang

/-- How far a program came. -/
inductive Report where
  /-- Its tokens could not be read. -/
  | unreadable (fault : Fault)
  /-- It does not belong to the language, and was not run. -/
  | rejected (outcome : Derivation.Outcome)
  /-- It ran to its end. -/
  | finished (outcome : Derivation.Outcome) (machine : Machine)
  /-- It ran into a fault. -/
  | failed (outcome : Derivation.Outcome) (machine : Machine) (fault : Fault)

namespace Report

/-- Parses tokens and runs the program that they make on a machine. -/
def ofTokens
    (settings : Settings)
    (m : Machine)
    (tokens : List Token) : Report :=
  let outcome := Derivation.parse tokens
  match outcome.verdict with
  | .reject => rejected outcome
  | .accept =>
      match Machine.run settings outcome.tree m with
      | .ok () m' => finished outcome m'
      | .error fault m' => failed outcome m' fault

/-- Runs the program whose tokens were read, if they could be read. -/
def ofReading
    (settings : Settings)
    (m : Machine) :
    Except Fault (List Token) → Report
  | .error fault => unreadable fault
  | .ok tokens => ofTokens settings m tokens

/-- Runs a source text on a fresh machine. -/
def ofSource
    (settings : Settings)
    (source file : String)
    (input : List UInt8) : Report :=
  ofReading settings (Machine.fresh input) (Token.scan source file)

end Report
end CometLang
