import CometLang.Machine.Basic
import CometLang.Numeral.Double
import CometLang.Numeral.Received
import CometLang.Proofs.Abstract

/-!
# What programs mean

The meaning of an abstract program is a change of the world: the open frames,
the frames closed so far, the table of the latest writes, the input and the
output. It ends well or with a fault, and what was done before a fault stays
done. Nothing here depends on how a program is parsed or on what its tree looks
like.

* An expression only reads the open frames.
* A declaration binds in the innermost frame; an assignment and a reception
  write to the nearest binding.
* Every run of a block opens a frame of its own and closes it in the end.
* A cascade runs the first branch whose guard holds, and does not look at later
  guards. A chain evaluates all its comparisons before it joins them.
* A loop runs its body a limited number of times.
-/

namespace CometLang

/-- All that a program can read and change. -/
structure World where
  /-- The open frames, innermost first. -/
  frames : List Frame
  /-- The closed frames, latest first. -/
  closed : List Frame
  table : Table Entry
  /-- The bytes still to be read. -/
  input : List UInt8
  /-- The bytes written so far. -/
  output : Array UInt8
  /-- How often the output was flushed. -/
  flushes : Nat

/-- A change of the world that ends well or with a fault. -/
abbrev Change (α : Type) :=
  EStateM Fault World α

namespace Change

/-- The result of something that only reads the open frames. -/
def look
    {α : Type}
    (read : List Frame → Except Fault α) : Change α := fun w =>
  match read w.frames with
  | .ok a => .ok a w
  | .error fault => .error fault w

/-- The world with a new frame opened. -/
def opened (w : World) : World :=
  { w with frames := Table.empty :: w.frames }

/-- The world with the innermost frame closed. -/
def closed (w : World) : World :=
  match w.frames with
  | [] => w
  | frame :: rest => { w with frames := rest, closed := frame :: w.closed }

/-- A frame is opened for the effect, and closed however it ends. -/
def inBlock (body : Change Unit) : Change Unit := fun w =>
  match body (opened w) with
  | .ok () w' => .ok () (closed w')
  | .error fault w' => .error fault (closed w')

/-- The latest write to a name, with the frames as they are now. -/
def record (name value : String) : Change Unit :=
  modify fun w => { w with table := w.table.insert name ⟨name, value, w.frames⟩ }

/-- Bytes are written as long as the sink takes them. -/
def emit
    (settings : Settings)
    (text : String)
    (position : Position) : Change Unit := fun w =>
  let bytes := text.toUTF8.toList
  match settings.sink.refusal? w.output w.flushes bytes with
  | none => .ok () { w with output := w.output ++ bytes }
  | some refusal =>
      .error ⟨.io refusal.message, position⟩
        { w with output := w.output ++ bytes.take refusal.taken }

/-- The output is flushed, whether or not that fails. -/
def flush
    (settings : Settings)
    (position : Position) : Change Unit := fun w =>
  let w' := { w with flushes := w.flushes + 1 }
  match settings.sink.flushError? w.output w.flushes with
  | none => .ok () w'
  | some message => .error ⟨.io message, position⟩ w'

/-- A line is read, with the newline that ends it. -/
def receive (position : Position) : Change String := fun w =>
  let behind := w.input.dropWhile (· != 10)
  let line := w.input.takeWhile (· != 10) ++ behind.take 1
  let w' := { w with input := behind.drop 1 }
  if line = [] then
    .error ⟨.inputExhausted, position⟩ w'
  else
    match String.fromUTF8? ⟨line.toArray⟩ with
    | some text => .ok text w'
    | none => .error ⟨.io "stream did not contain valid UTF-8", position⟩ w'

/-- While a guard holds a body is run, at most `count` times. -/
def whileHolds
    (excess : Fault)
    (guard : Change Bool)
    (body : Change Unit) :
    Nat → Change Unit
  | 0 => do
      if ← guard then
        throw excess
  | count + 1 => do
      if ← guard then
        body
        whileHolds excess guard body count

/-- A body is run, and again while a guard holds, at most `count` times in all. -/
def untilFails
    (excess : Fault)
    (guard : Change Bool)
    (body : Change Unit) :
    Nat → Change Unit
  | 0 => throw excess
  | count + 1 => do
      body
      if ← guard then
        untilFails excess guard body count

end Change

namespace Abstract

/-! ## Names -/

namespace Name

/-- The value in the innermost frame that binds the name. -/
def value
    (n : Name)
    (frames : List Frame) : Except Fault String :=
  match frames.findSome? (·.get? n.text) with
  | some value => .ok value
  | none => .error ⟨.undeclared n.text, n.position⟩

/-- The name is bound in the innermost frame, where it must be new. -/
def declare
    (n : Name)
    (value : String) : Change Unit := fun w =>
  match w.frames with
  | [] => .ok () { w with frames := [Table.empty.insert n.text value] }
  | frame :: rest =>
      if (frame.get? n.text).isSome then
        .error ⟨.alreadyDeclared n.text, n.position⟩ w
      else
        .ok () { w with frames := frame.insert n.text value :: rest }

/-- The innermost frame that binds the name is changed. -/
def assign
    (n : Name)
    (value : String) : Change Unit := fun w =>
  match w.frames.findIdx? (fun frame => (frame.get? n.text).isSome) with
  | some index =>
      .ok () { w with frames := w.frames.modify index (·.insert n.text value) }
  | none => .error ⟨.undeclared n.text, n.position⟩ w

end Name

/-! ## Expressions -/

/-- The fault of a text that is no number. -/
def notNumber
    (text : String)
    (position : Position) : Fault :=
  ⟨.typeMismatch "a comet (integer)" text, position⟩

namespace Operand

def position : Operand → Position
  | name n => n.position
  | literal _ position => position

/-- A name stands for its value, a literal for itself. -/
def text
    (frames : List Frame) :
    Operand → Except Fault String
  | name n => n.value frames
  | literal text _ => .ok text

/-- The number that the operand writes, as the reader of its text sees it. -/
def number
    {α : Type}
    (reader : String → Option α)
    (frames : List Frame)
    (o : Operand) : Except Fault α := do
  let text ← o.text frames
  match reader text with
  | some value => return value
  | none => throw (notNumber text o.position)

end Operand

/-- The values of operands, each with the operator in front of it. -/
def Operation.values
    (frames : List Frame)
    (operations : List Operation) : Except Fault (List (Operator × Int64)) :=
  operations.mapM fun operation => do
    let right ← operation.operand.number Numeral.wholeOf? frames
    return (operation.operator, right)

namespace Arithmetic

/--
The value of a term and the operations behind it, in one pass. What stands
before the term is a function of the whole term.
-/
def total
    (before : Int64 → Int64)
    (term : Int64) :
    List (Operator × Int64) → Except Fault Int64
  | [] => .ok (before term)
  | (.plus, right) :: rest => total (before term + ·) right rest
  | (.minus, right) :: rest => total (before term - ·) right rest
  | (.times, right) :: rest => total before (term * right) rest
  | (.divide position, right) :: rest =>
      if right = 0 then
        .error ⟨.divisionByZero, position⟩
      else
        total before (term / right) rest

/-- All operands are read, from left to right, before anything is computed. -/
def value
    (a : Arithmetic)
    (frames : List Frame) : Except Fault Int64 := do
  let first ← a.first.number Numeral.wholeOf? frames
  let operations ← Operation.values frames (a.second :: a.more)
  total id first operations

end Arithmetic

/-- The text that a variable is set to. -/
def Value.text
    (frames : List Frame) :
    Value → Except Fault String
  | operand o => o.text frames
  | arithmetic a => do
      let value ← a.value frames
      return Numeral.wholeText value

/-- What a comparison says of the order of two numbers. -/
def Comparator.holds
    (order : Option Ordering) :
    Comparator → Bool
  | equals => order = some .eq
  | notEquals => order ≠ some .eq
  | greater => order = some .gt
  | less => order = some .lt
  | greaterEquals => order = some .gt ∨ order = some .eq
  | lessEquals => order = some .lt ∨ order = some .eq

def Comparison.truth
    (frames : List Frame)
    (c : Comparison) : Except Fault Bool := do
  let left ← c.left.number Numeral.Double.ofText? frames
  let right ← c.right.number Numeral.Double.ofText? frames
  return c.comparator.holds (left.compare? right)

def Connective.join : Connective → Bool → Bool → Bool
  | and, left, right => left && right
  | or, left, right => left || right

/-- The truths of comparisons, each with the connective in front of it. -/
def Link.truths
    (frames : List Frame)
    (links : List Link) : Except Fault (List (Connective × Bool)) :=
  links.mapM fun link => do
    let truth ← link.comparison.truth frames
    return (link.connective, truth)

/-- Every comparison is evaluated, and then they are joined from left to right. -/
def Condition.truth
    (c : Condition)
    (frames : List Frame) : Except Fault Bool := do
  let first ← c.first.truth frames
  let others ← Link.truths frames c.links
  return others.foldl (fun truth link => link.1.join truth link.2) first

/-- The stretches between the quotes of a string, one after the other. -/
def unquoted (quoted : String) : String :=
  String.ofList (quoted.toList.splitOn '"').flatten

/-- A string without its quotes, or the value of a name. -/
def Argument.contents
    (frames : List Frame) :
    Argument → Except Fault String
  | text quoted => .ok (unquoted quoted)
  | name n => n.value frames

/-! ## Statements -/

/-- The fault of a loop that has run its body as often as it may. -/
def excess
    (settings : Settings)
    (position : Position) : Fault :=
  ⟨.loopLimitExceeded settings.maxIterations, position⟩

open Change

/-- A line is asked for and its number is assigned. -/
def receiveInto
    (settings : Settings)
    (target : Name)
    (prompt : Argument) : Change Unit := do
  let _ ← look target.value
  let question ← look fun frames => prompt.contents frames
  emit settings question target.position
  flush settings target.position
  let line ← receive target.position
  let number := Text.trimmed line
  if Numeral.isNumeral number.toList then
    target.assign number
    record target.text number
  else
    throw (notNumber number target.position)

mutual

def Statement.effect (settings : Settings) : Statement → Change Unit
  | .declaration target value => do
      let text ← look fun frames => value.text frames
      target.declare text
      record target.text text
  | .assignment target value => do
      let text ← look fun frames => value.text frames
      target.assign text
      record target.text text
  | .transmission argument => do
      let text ← look fun frames => argument.contents frames
      emit settings (text ++ "\n") Position.unknown
  | .reception target prompt => receiveInto settings target prompt
  | .orbit guard body => do
      if ← look guard.truth then
        inBlock (body.effect settings)
  | .orbitPropel guard body otherwise => do
      if ← look guard.truth then
        inBlock (body.effect settings)
      else
        inBlock (otherwise.effect settings)
  | .orbitNavigatePropel guard body second alternative otherwise => do
      if ← look guard.truth then
        inBlock (body.effect settings)
      else if ← look second.truth then
        inBlock (alternative.effect settings)
      else
        inBlock (otherwise.effect settings)
  | .whirl position guard body =>
      whileHolds (excess settings position) (look guard.truth)
        (inBlock (body.effect settings)) settings.maxIterations
  | .launch position body guard =>
      untilFails (excess settings position) (look guard.truth)
        (inBlock (body.effect settings)) settings.maxIterations

def Item.effect (settings : Settings) : Item → Change Unit
  | .statement s => s.effect settings
  | .arithmetic a => do
      let _ ← look a.value

def Body.effect (settings : Settings) : Body → Change Unit
  | .last item => item.effect settings
  | .more item rest => do
      item.effect settings
      rest.effect settings

end

/-- A program runs in a frame of its own. -/
def Program.effect (settings : Settings) : Program → Change Unit
  | empty => inBlock (pure ())
  | items before last =>
      inBlock do
        before.forM (·.effect settings)
        last.effect settings
  | arithmetic a =>
      inBlock do
        let _ ← look a.value

end Abstract
end CometLang
