import CometLang.Machine.Event
import CometLang.Machine.Sink

/-!
# Machines

A machine is what a running program can see and change: its scopes, the table
of the latest writes, the input still to be read, the output written so far and
how often it was flushed. It also keeps the events of its runs.

An action changes a machine and ends well or with a fault; what was done before
a fault stays done.
-/

namespace CometLang

/-- The latest write to a name, with the open frames as they were then. -/
structure Entry where
  identifier : String
  value : String
  /-- The open frames, innermost first. -/
  frames : List Frame

/-- What a running program can see and change. -/
structure Machine where
  scopes : Scopes
  table : Table Entry
  /-- The bytes still to be read. -/
  input : List UInt8
  /-- The bytes written so far. -/
  output : Array UInt8
  /-- How often the output was flushed. -/
  flushes : Nat
  /-- What happened, latest first. -/
  log : List Event

/-- What a run may use. -/
structure Settings where
  /-- How often the body of one loop may run. -/
  maxIterations : Nat := 200
  /-- Where the output goes. -/
  sink : Sink := .willing

/-- A change of the machine that ends well or with a fault. -/
abbrev Action (α : Type) :=
  EStateM Fault Machine α

namespace Machine

/-- The machine before any run. -/
def fresh (input : List UInt8) : Machine :=
  ⟨Scopes.empty, Table.empty, input, #[], 0, []⟩

/-- The machine with one more event. -/
def note
    (m : Machine)
    (event : Event) : Machine :=
  { m with log := event :: m.log }

/-- The events in order. -/
def events (m : Machine) : List Event :=
  m.log.reverse

/-- Opens a frame. -/
def enter (m : Machine) : Machine :=
  { m with scopes := m.scopes.push }.note (.entered (m.scopes.depth + 1))

/-- Closes the innermost frame, if one is open. -/
def leave (m : Machine) : Machine :=
  match m.scopes.frames with
  | [] => m
  | frame :: _ =>
      { m with scopes := m.scopes.pop }.note (.left m.scopes.depth frame.size)

/-- Puts the latest write to a name into the table. -/
def record
    (m : Machine)
    (name value : String) : Machine :=
  { m with table := m.table.insert name ⟨name, value, m.scopes.frames⟩ }

/-- The bytes up to the first newline, with it, and the bytes behind. -/
def splitLine (input : List UInt8) : List UInt8 × List UInt8 :=
  match input.span (· != 10) with
  | (line, []) => (line, [])
  | (line, newline :: rest) => (line ++ [newline], rest)

end Machine

namespace Action

/-- Reports an event. -/
def note (event : Event) : Action Unit :=
  modify (·.note event)

/-- The result of something that only reads the scopes. -/
def ofScopes
    {α : Type}
    (read : Scopes → Except Fault α) : Action α := fun m =>
  match read m.scopes with
  | .ok a => .ok a m
  | .error fault => .error fault m

/-- Goes on with a result, or stops with a fault. -/
def ofExcept
    {α : Type}
    (result : Except Fault α) : Action α :=
  ofScopes fun _ => result

/-- Carries out an action in a frame of its own, which is closed in any case. -/
def inFrame (body : Action Unit) : Action Unit := fun m =>
  match body m.enter with
  | .ok () m' => .ok () m'.leave
  | .error fault m' => .error fault m'.leave

/-- Binds a new name in the innermost frame; the first frame may be opened for it. -/
def declare
    (name value : String)
    (position : Position) : Action Unit := fun m =>
  match m.scopes.declare name value position with
  | .ok scopes =>
      let m' := if m.scopes.frames.isEmpty then m.note (.entered 1) else m
      .ok () { m' with scopes := scopes }
  | .error fault => .error fault m

/-- Changes the innermost binding of a name. -/
def assign
    (name value : String)
    (position : Position) : Action Unit := fun m =>
  match m.scopes.assign name value position with
  | .ok scopes => .ok () { m with scopes := scopes }
  | .error fault => .error fault m

/--
Writes a text. Where the sink breaks off, what it has taken is written and the
position is blamed for the rest.
-/
def write
    (settings : Settings)
    (text : String)
    (position : Position) : Action Unit := fun m =>
  let bytes := text.toUTF8.toList
  match settings.sink.refusal? m.output m.flushes bytes with
  | none => .ok () { m with output := m.output ++ bytes }
  | some refusal =>
      .error ⟨.io refusal.message, position⟩
        { m with output := m.output ++ bytes.take refusal.taken }

/-- Makes sure that the output has arrived. -/
def flush
    (settings : Settings)
    (position : Position) : Action Unit := fun m =>
  let flushed := { m with flushes := m.flushes + 1 }
  match settings.sink.flushError? m.output m.flushes with
  | none => .ok () flushed
  | some message => .error ⟨.io message, position⟩ flushed

/-- Reads a line of input, with the newline that ends it. -/
def readLine (position : Position) : Action String := fun m =>
  let (line, rest) := Machine.splitLine m.input
  let m := { m with input := rest }
  if line.isEmpty then
    .error ⟨.inputExhausted, position⟩ m
  else
    match String.fromUTF8? ⟨line.toArray⟩ with
    | some text => .ok text m
    | none => .error ⟨.io "stream did not contain valid UTF-8", position⟩ m

end Action
end CometLang
