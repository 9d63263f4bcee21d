import CometLang.Fault
import CometLang.Text.Line

/-!
# Fault reports

A report is a headline, the file, and, where the place lies inside the
content, the source line with a caret below it:

    Error: Undeclared (Variable `y` has not been declared)
    -> descent.txt
       |
    20 | x = y ;
       | ----^

The displayed line is trimmed, and the caret moves left by the number of plain
spaces that the line starts with.
-/

namespace CometLang
namespace Fault

/-- The kind of the fault, with its tip in parentheses. -/
def headline (fault : Fault) : String :=
  match fault.cause.tip? with
  | none => "Error: " ++ fault.cause.name ++ "\n"
  | some tip => "Error: " ++ fault.cause.name ++ " (" ++ tip ++ ")\n"

/-- So many copies of one character. -/
def fill
    (count : Nat)
    (c : Char) : String :=
  String.ofList (List.replicate count c)

/-- A bar under the bar behind a line number of so many digits. -/
def bar (digits : Nat) : String :=
  fill (digits + 1) ' ' ++ "|"

/-- The number of dashes in front of the caret. -/
def caretIndent (line : Text.Line) : Nat :=
  line.column - (line.text.takeWhile (· = ' ')).length

/-- The source line and the caret line of a report. -/
def excerpt (line : Text.Line) : String :=
  let number := toString line.number
  let margin := bar number.length
  margin ++ "\n"
    ++ number ++ " | " ++ String.ofList (Text.trimBlanks line.text) ++ "\n"
    ++ margin ++ " " ++ fill (caretIndent line) '-' ++ "^\n"

/-- The report of a fault in the given content. -/
def report
    (fault : Fault)
    (content : String) : String :=
  fault.headline ++ "-> " ++ fault.position.file ++ "\n"
    ++ match Text.Line.at? content fault.position.offset with
      | none => ""
      | some line => excerpt line

end Fault
end CometLang
