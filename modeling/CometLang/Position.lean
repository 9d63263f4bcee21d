/-!
# Places in a file

A position is a byte offset in a named file; a span is the stretch from its
first byte to the byte behind its last. Nodes that hold no token have the
unknown position.
-/

namespace CometLang

/-- A byte offset in a named file. -/
structure Position where
  offset : Nat
  file : String
deriving DecidableEq, Repr

/-- The place of whatever stands in no file. -/
def Position.unknown : Position :=
  ⟨0, "<null>"⟩

/-- The place a number of bytes further on in the same file. -/
def Position.advance
    (p : Position)
    (bytes : Nat) : Position :=
  { p with offset := p.offset + bytes }

/-- A stretch of a file: its first byte and the byte behind it. -/
structure Span where
  start : Position
  stop : Position
deriving DecidableEq, Repr

/-- The stretch of so many bytes from a position on. -/
def Span.ofLength
    (start : Position)
    (bytes : Nat) : Span :=
  ⟨start, start.advance bytes⟩

end CometLang
