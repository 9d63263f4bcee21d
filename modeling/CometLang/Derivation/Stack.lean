import CometLang.Grammar.Symbol

/-!
# The stack of symbols

The symbols at hand stand in slots, one slot for each token of the program from
the start. A new symbol takes the first free slot. A reduction overwrites the
first slot of its window, empties the others, and closes the gaps, so that the
symbols always stand in front and in order. The gaps are closed in one pass over
the slots, in which taken slots change places with free ones in front of them.
-/

namespace CometLang

/-- Slots for symbols, and how many of them are taken. -/
structure Stack where
  slots : List (Option Symbol)
  size : Nat
deriving DecidableEq, Repr, Inhabited

namespace Stack

/-- So many free slots. -/
def withCapacity (capacity : Nat) : Stack :=
  ⟨List.replicate capacity none, 0⟩

/-- The number of slots, free ones included. -/
def capacity (stack : Stack) : Nat :=
  stack.slots.length

/-- The symbols in the taken slots, in order. -/
def symbols (stack : Stack) : List Symbol :=
  (stack.slots.take stack.size).filterMap id

/-- The symbol in a taken slot. -/
def get?
    (stack : Stack)
    (index : Nat) : Option Symbol :=
  if index < stack.size then
    stack.slots[index]?.join
  else
    none

/-- Puts a symbol into the first free slot, or into a new one if none is free. -/
def push
    (stack : Stack)
    (s : Symbol) : Stack :=
  if stack.size < stack.slots.length then
    ⟨stack.slots.set stack.size (some s), stack.size + 1⟩
  else
    ⟨stack.slots ++ [some s], stack.size + 1⟩

/--
One round of closing the gaps: if the slot that is read is taken, it changes
places with the slot to be written, and the next one is written from then on.
-/
def closeGapAt
    (state : Array (Option Symbol) × Nat)
    (read : Nat) : Array (Option Symbol) × Nat :=
  let (slots, write) := state
  if slots[read]?.join.isSome then
    (slots.swapIfInBounds write read, write + 1)
  else
    (slots, write)

/-- Closes the gaps between the taken slots in one pass, in place. -/
def compact (slots : List (Option Symbol)) : Stack :=
  let (slots, write) := (List.range slots.length).foldl closeGapAt (slots.toArray, 0)
  ⟨slots.toList, write⟩

/-- Puts a symbol into a slot, if there is such a slot. -/
def overwrite?
    (slots : List (Option Symbol))
    (index : Nat)
    (s : Symbol) : Option (List (Option Symbol)) :=
  if index < slots.length then
    some (slots.set index (some s))
  else
    none

/-- Empties the slots from `first` to just before `last`, if these bound a part of the slots. -/
def clear?
    (slots : List (Option Symbol))
    (first last : Nat) : Option (List (Option Symbol)) :=
  if first ≤ last && last ≤ slots.length then
    some (slots.take first ++ List.replicate (last - first) none ++ slots.drop last)
  else
    none

/--
Replaces the window of `width` slots from `start` on by one phrase, which takes
the first slot of the window. There is no result if a slot cannot be accessed.
-/
def reduce?
    (stack : Stack)
    (start width : Nat)
    (lhs : Nonterminal) : Option Stack := do
  let slots ← overwrite? stack.slots start (.nonterminal lhs)
  let slots ← clear? slots (start + 1) (start + width)
  return compact slots

/-- The symbols from an index on, as text. -/
def textFrom
    (stack : Stack)
    (index : Nat) : String :=
  symbolsText (stack.symbols.drop index)

/-- All symbols, as text. -/
def text (stack : Stack) : String :=
  symbolsText stack.symbols

end Stack
end CometLang
