import CometLang.Grammar.Production

/-!
# Reductions

A reduction names a window of the symbols at hand and the phrase it becomes.
A production reduces the leftmost window it applies to, and of the productions
that apply, the first in the catalog is taken.
-/

namespace CometLang

/-- A window of symbols and the phrase it becomes. -/
structure Reduction where
  start : Nat
  width : Nat
  lhs : Nonterminal
deriving DecidableEq, Repr

namespace Production

/-- The width of the window at the front of the symbols, behind `before`. -/
def widthAt?
    (p : Production)
    (mode : Mode)
    (before : Option Symbol)
    (symbols : List Symbol) : Option Nat :=
  (p.rhs.width? symbols).filter fun width =>
    p.allows before symbols.head? (Next.of symbols width mode)

/-- The leftmost window among symbols that stand behind `before`, at `start`. -/
def findFrom?
    (p : Production)
    (mode : Mode)
    (before : Option Symbol)
    (start : Nat) :
    List Symbol → Option Reduction
  | [] => none
  | s :: rest =>
      match p.widthAt? mode before (s :: rest) with
      | some width => some ⟨start, width, p.lhs⟩
      | none => findFrom? p mode (some s) (start + 1) rest

/-- The leftmost window that the production applies to. -/
def find?
    (p : Production)
    (mode : Mode)
    (symbols : List Symbol) : Option Reduction :=
  p.findFrom? mode none 0 symbols

end Production

/-- The production to fire next, with its window. -/
def nextReduction?
    (mode : Mode)
    (symbols : List Symbol) : Option (Production × Reduction) :=
  (Production.catalog mode).findSome? fun p =>
    (p.find? mode symbols).map fun reduction => (p, reduction)

/-- Every production that applies to the symbols, each with its own window. -/
def applicable
    (mode : Mode)
    (symbols : List Symbol) : List (Production × Reduction) :=
  Production.all.filterMap fun p =>
    (p.find? mode symbols).map fun reduction => (p, reduction)

end CometLang
