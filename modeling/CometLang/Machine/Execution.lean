import CometLang.Evaluation.Condition
import CometLang.Machine.Basic
import CometLang.Numeral.Received

/-!
# Running programs

A parse tree is run from left to right. A program and every body of a branch or
a loop run in a frame of their own; tokens and the phrases that only group
others pass through to what is below them. Statements are recognised by their
phrase, and they find their parts by the labels of their children.
-/

namespace CometLang
namespace Machine

open Evaluation

/-- The fault that a phrase has not the part it needs. -/
def missing
    (part : String)
    (t : Tree) : Fault :=
  malformed ("`" ++ t.label.text ++ "` is missing its " ++ part) (treePosition t)

/-- The first child of a form, which goes by the given name in a fault. -/
def partOf
    (t : Tree)
    (form : Nonterminal)
    (part : String) : Except Fault Tree :=
  match t.child? form with
  | some child => .ok child
  | none => .error (missing part t)

/-- The value of an arithmetic expression, its steps reported. -/
def arithmeticValue (t : Tree) : Action Int64 := fun m =>
  let (steps, result) := compute t m.scopes
  let m := steps.foldl (fun m step => m.note (.computed step)) m
  match result with
  | .ok value => .ok value m
  | .error fault => .error fault m

/-- The text of an identifier's value. -/
def identifierText (t : Tree) : Action String := do
  let token ← Action.ofExcept (leafToken t)
  Action.ofScopes (·.resolve token.value token.position)

/-- The text that the right side of a declaration or an assignment stands for. -/
def valueText (t : Tree) : Action String :=
  match t.form? with
  | some .identifier => identifierText t
  | some .cometLiteral => do
      let token ← Action.ofExcept (leafToken t)
      return token.value
  | some .arithExp => do
      let value ← arithmeticValue t
      return Numeral.wholeText value
  | _ =>
      throw (malformed ("`" ++ t.label.text ++ "` cannot be assigned") (treePosition t))

/-- The child right behind the first sign of assignment. -/
def assignedChild? (t : Tree) : Option Tree :=
  (t.children.dropWhile fun child =>
    (child.token?.map Token.kind) != some .assignment)[1]?

/-- The name that a declaration or an assignment is about, and its right side. -/
def bindingParts (t : Tree) : Except Fault (Token × Tree) := do
  let target ← partOf t .identifier "identifier"
  match assignedChild? t with
  | none => throw (missing "value" t)
  | some value =>
      let token ← leafToken target
      return (token, value)

/-- Declares a name. -/
def runDeclaration (t : Tree) : Action Unit := do
  let (target, right) ← Action.ofExcept (bindingParts t)
  let value ← valueText right
  Action.declare target.value value target.position
  modify (·.record target.value value)
  Action.note (.declared target.value value)

/-- Assigns to a name. -/
def runAssignment (t : Tree) : Action Unit := do
  let (target, right) ← Action.ofExcept (bindingParts t)
  let value ← valueText right
  Action.assign target.value value target.position
  modify (·.record target.value value)
  Action.note (.assigned target.value value)

/-- The text that a string or an identifier in parentheses stands for. -/
def argumentText? (io : Tree) : Action (Option String) :=
  match io.child? .string with
  | some string => do
      let token ← Action.ofExcept (leafToken string)
      return some token.text
  | none =>
      match io.child? .identifier with
      | some identifier => some <$> identifierText identifier
      | none => pure none

/-- Writes a line. -/
def runTransmission
    (settings : Settings)
    (t : Tree) : Action Unit := do
  let io ← Action.ofExcept (partOf t .ioStmt "ioStmt")
  match ← argumentText? io with
  | some text => Action.write settings (text ++ "\n") Position.unknown
  | none => throw (missing "transmission argument" io)

/-- Asks for a number and assigns it. -/
def runReception
    (settings : Settings)
    (t : Tree) : Action Unit := do
  let child ← Action.ofExcept (partOf t .identifier "identifier")
  let target ← Action.ofExcept (leafToken child)
  let position := target.position
  let _ ← Action.ofScopes (·.resolve target.value position)
  let io ← Action.ofExcept (partOf t .ioStmt "ioStmt")
  let argument ← argumentText? io
  Action.write settings (argument.getD "") position
  Action.flush settings position
  let line ← Action.readLine position
  let received := Text.trimmed line
  if Numeral.isNumeral received.toList then
    Action.assign target.value received position
    modify (·.record target.value received)
    Action.note (.received target.value received)
  else
    throw (notANumber received position)

/-- Evaluates an arithmetic expression for nothing. -/
def runArithmetic (t : Tree) : Action Unit := do
  let value ← arithmeticValue t
  Action.note (.discarded value)

/-- The guard of a branch or a loop, whose body must be there too. -/
def guardOf (t : Tree) : Except Fault Tree := do
  let guard ← partOf t .conditionalExp "conditionalExp"
  let _ ← partOf t .stmt "stmt"
  return guard

/-- Whether a guard holds. -/
def holds (guard : Tree) : Action Bool :=
  Action.ofScopes (condition guard)

/-- The last branch of a cascade, if there is one. -/
def runPropel
    (t : Tree)
    (body : Action Unit) : Action Unit :=
  match t.child? .propelStmt with
  | none => pure ()
  | some branch => do
      let _ ← Action.ofExcept (partOf branch .stmt "stmt")
      Action.inFrame body

/-- Runs the first branch of a cascade whose guard holds. -/
def runOrbit
    (t : Tree)
    (body navigateBody propelBody : Action Unit) : Action Unit := do
  let guard ← Action.ofExcept (guardOf t)
  if ← holds guard then
    Action.inFrame body
  else
    match t.child? .navigateStmt with
    | none => runPropel t propelBody
    | some branch =>
        let guard ← Action.ofExcept (guardOf branch)
        if ← holds guard then
          Action.inFrame navigateBody
        else
          runPropel t propelBody

/-- The fault that a loop has run its body too often. -/
def tooManyIterations
    (settings : Settings)
    (t : Tree) : Fault :=
  ⟨.loopLimitExceeded settings.maxIterations, treePosition t⟩

/--
Runs a body while a guard holds, at most `left` times, and gives how many of
those are left.
-/
def repeatWhile
    (fault : Fault)
    (guard : Action Bool)
    (body : Action Unit) :
    Nat → Action Nat
  | 0 => do
      if ← guard then
        throw fault
      else
        return 0
  | left + 1 => do
      if ← guard then
        Action.inFrame body
        repeatWhile fault guard body left
      else
        return left + 1

/--
Runs a body and then again while a guard holds, at most `left` times, and gives
how many of those are left.
-/
def repeatUntil
    (fault : Fault)
    (guard : Action Bool)
    (body : Action Unit) :
    Nat → Action Nat
  | 0 => throw fault
  | left + 1 => do
      Action.inFrame body
      if ← guard then
        repeatUntil fault guard body left
      else
        return left

/-- Runs a loop that tests its guard first. -/
def runWhirl
    (settings : Settings)
    (t : Tree)
    (body : Action Unit) : Action Unit := do
  let guard ← Action.ofExcept (guardOf t)
  let left ← repeatWhile (tooManyIterations settings t) (holds guard) body
    settings.maxIterations
  Action.note (.whirled (settings.maxIterations - left))

/-- Runs a loop that tests its guard last. -/
def runLaunch
    (settings : Settings)
    (t : Tree)
    (body : Action Unit) : Action Unit := do
  let guard ← Action.ofExcept (guardOf t)
  let left ← repeatUntil (tooManyIterations settings t) (holds guard) body
    settings.maxIterations
  Action.note (.launched (settings.maxIterations - left))

mutual

/-- Runs a tree. -/
def run (settings : Settings) : Tree → Action Unit
  | .node label children =>
      match label with
      | .program => Action.inFrame (runAll settings children)
      | .token _ => pure ()
      | .nonterminal form =>
          let t := Tree.node (.nonterminal form) children
          match form with
          | .decStmt => runDeclaration t
          | .assignStmt => runAssignment t
          | .transmissionStmt => runTransmission settings t
          | .receptionStmt => runReception settings t
          | .arithExp => runArithmetic t
          | .orbitStmt =>
              runOrbit t
                (runBody settings children)
                (runBranch settings .navigateStmt children)
                (runBranch settings .propelStmt children)
          | .whirlLoop => runWhirl settings t (runBody settings children)
          | .launchWhirlLoop => runLaunch settings t (runBody settings children)
          | _ => runAll settings children

/-- Runs trees one after the other. -/
def runAll (settings : Settings) : List Tree → Action Unit
  | [] => pure ()
  | t :: rest => do
      run settings t
      runAll settings rest

/-- Runs what is in the first block among the trees. -/
def runBody (settings : Settings) : List Tree → Action Unit
  | [] => pure ()
  | .node label children :: rest =>
      if label = .nonterminal .stmt then
        runAll settings children
      else
        runBody settings rest

/-- Runs what is in the block of the first branch of a form among the trees. -/
def runBranch
    (settings : Settings)
    (form : Nonterminal) : List Tree → Action Unit
  | [] => pure ()
  | .node label children :: rest =>
      if label = .nonterminal form then
        runBody settings children
      else
        runBranch settings form rest

end

end Machine
end CometLang
