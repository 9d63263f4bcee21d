import CometLang.Fault
import CometLang.Scope.Table

/-!
# Scopes

A frame binds names to the texts of their values. Open frames are nested, the
innermost first; a frame that is closed is kept for the record. A declaration
binds in the innermost frame, where the name must be new; an assignment changes
the innermost frame that binds the name.
-/

namespace CometLang

/-- Names and the texts of their values. -/
abbrev Frame :=
  Table String

/-- Open frames, innermost first, and the frames closed so far, latest first. -/
structure Scopes where
  frames : List Frame
  closed : List Frame

namespace Scopes

/-- No frame was opened yet. -/
def empty : Scopes :=
  ⟨[], []⟩

/-- The number of open frames. -/
def depth (s : Scopes) : Nat :=
  s.frames.length

/-- The closed frames in the order in which they were closed. -/
def history (s : Scopes) : List Frame :=
  s.closed.reverse

/-- Opens a frame without names. -/
def push (s : Scopes) : Scopes :=
  { s with frames := Table.empty :: s.frames }

/-- Closes the innermost frame, if one is open. -/
def pop (s : Scopes) : Scopes :=
  match s.frames with
  | [] => s
  | frame :: rest => ⟨rest, frame :: s.closed⟩

/-- The value of a name in the innermost of the frames that bind it. -/
def lookupIn
    (name : String)
    (frames : List Frame) : Option String :=
  frames.findSome? fun frame => frame.get? name

/-- The value of a name. -/
def lookup?
    (s : Scopes)
    (name : String) : Option String :=
  lookupIn name s.frames

/-- The value of a name that is read at a position. -/
def resolve
    (s : Scopes)
    (name : String)
    (position : Position) : Except Fault String :=
  match s.lookup? name with
  | some value => .ok value
  | none => .error ⟨.undeclared name, position⟩

/-- Binds a new name in the innermost frame; a frame is opened if none is open. -/
def declare
    (s : Scopes)
    (name value : String)
    (position : Position) : Except Fault Scopes :=
  match s.frames with
  | [] => .ok { s with frames := [Table.empty.insert name value] }
  | frame :: rest =>
      if frame.binds name then
        .error ⟨.alreadyDeclared name, position⟩
      else
        .ok { s with frames := frame.insert name value :: rest }

/-- The frames with the innermost binding of a name changed, if there is one. -/
def assignIn?
    (name value : String) :
    List Frame → Option (List Frame)
  | [] => none
  | frame :: rest =>
      if frame.binds name then
        some (frame.insert name value :: rest)
      else
        (assignIn? name value rest).map (frame :: ·)

/-- Changes the innermost binding of a name. -/
def assign
    (s : Scopes)
    (name value : String)
    (position : Position) : Except Fault Scopes :=
  match assignIn? name value s.frames with
  | some frames => .ok { s with frames := frames }
  | none => .error ⟨.undeclared name, position⟩

end Scopes
end CometLang
