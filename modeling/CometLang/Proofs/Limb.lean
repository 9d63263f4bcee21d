import CometLang.Derivation.Tree
import CometLang.Proofs.Window

/-!
# Limbs: the stack and the tree as one

The stack holds symbols in slots, and the children of the tree's root run
parallel to them. Both are determined by one list of limbs: a limb is a symbol
together with the trees that were gathered under it. A reduction splices the
limbs of its window into one limb.
-/

namespace CometLang

/-- The label of the node that stands for a symbol. -/
def Symbol.label : Symbol → Label
  | terminal token => .token token
  | nonterminal form => .nonterminal form

/-- A symbol and the trees gathered under it. -/
structure Limb where
  symbol : Symbol
  children : List Tree

namespace Limb

/-- The limb of a token. -/
def leaf (token : Token) : Limb :=
  ⟨.terminal token, []⟩

/-- The tree of a limb. -/
def tree (limb : Limb) : Tree :=
  .node limb.symbol.label limb.children

/-- The limb of a phrase over other limbs. -/
def phrase
    (form : Nonterminal)
    (limbs : List Limb) : Limb :=
  ⟨.nonterminal form, limbs.map tree⟩

/-- The symbols of the limbs. -/
def symbols (limbs : List Limb) : List Symbol :=
  limbs.map symbol

/-- The trees of the limbs. -/
def trees (limbs : List Limb) : List Tree :=
  limbs.map tree

/-- The tokens below the limbs, left to right. -/
def leaves (limbs : List Limb) : List Token :=
  Tree.leavesOfAll (trees limbs)

/-- The limbs with the window of a reduction gathered under its phrase. -/
def splice
    (limbs : List Limb)
    (r : Reduction) : List Limb :=
  limbs.take r.start
    ++ phrase r.lhs ((limbs.drop r.start).take r.width) :: limbs.drop (r.start + r.width)

@[simp] theorem symbols_append
    (as bs : List Limb) :
    symbols (as ++ bs) = symbols as ++ symbols bs := by
  simp [symbols]

@[simp] theorem symbols_cons
    (limb : Limb)
    (limbs : List Limb) :
    symbols (limb :: limbs) = limb.symbol :: symbols limbs := by
  rfl

@[simp] theorem symbols_nil :
    symbols [] = [] := by
  rfl

@[simp] theorem length_symbols
    (limbs : List Limb) :
    (symbols limbs).length = limbs.length := by
  simp [symbols]

@[simp] theorem trees_append
    (as bs : List Limb) :
    trees (as ++ bs) = trees as ++ trees bs := by
  simp [trees]

@[simp] theorem trees_cons
    (limb : Limb)
    (limbs : List Limb) :
    trees (limb :: limbs) = limb.tree :: trees limbs := by
  rfl

@[simp] theorem trees_nil :
    trees [] = [] := by
  rfl

@[simp] theorem length_trees
    (limbs : List Limb) :
    (trees limbs).length = limbs.length := by
  simp [trees]

@[simp] theorem leaves_append
    (as bs : List Limb) :
    leaves (as ++ bs) = leaves as ++ leaves bs := by
  simp [leaves]

@[simp] theorem leaves_cons
    (limb : Limb)
    (limbs : List Limb) :
    leaves (limb :: limbs) = limb.tree.leaves ++ leaves limbs := by
  simp [leaves, Tree.leavesOfAll]

@[simp] theorem leaves_nil :
    leaves [] = [] := by
  rfl

@[simp] theorem symbol_leaf
    (token : Token) :
    (leaf token).symbol = .terminal token := by
  rfl

@[simp] theorem symbol_phrase
    (form : Nonterminal)
    (limbs : List Limb) :
    (phrase form limbs).symbol = .nonterminal form := by
  rfl

@[simp] theorem tree_leaf
    (token : Token) :
    (leaf token).tree = Tree.leaf token := by
  rfl

@[simp] theorem tree_phrase
    (form : Nonterminal)
    (limbs : List Limb) :
    (phrase form limbs).tree = .node (.nonterminal form) (trees limbs) := by
  rfl

@[simp] theorem leaves_tree_leaf
    (token : Token) :
    (Tree.leaf token).leaves = [token] := by
  simp [Tree.leaf, Tree.leaves, Tree.leavesOfAll, Label.token?]

@[simp] theorem leaves_tree_phrase
    (form : Nonterminal)
    (limbs : List Limb) :
    (Tree.node (.nonterminal form) (trees limbs)).leaves = leaves limbs := by
  simp [Tree.leaves, Label.token?, leaves]

/-- The trees of limbs are labelled with their symbols. -/
theorem label_trees
    (limbs : List Limb) :
    (trees limbs).map Tree.label = (symbols limbs).map Symbol.label := by
  simp [trees, symbols, tree, Tree.label, Function.comp_def]

/-- Splicing gathers exactly the window between what stands around it. -/
theorem splice_append
    (before window behind : List Limb)
    (lhs : Nonterminal) :
    splice (before ++ window ++ behind) ⟨before.length, window.length, lhs⟩
      = before ++ phrase lhs window :: behind := by
  have hlength :
      before.length + window.length = (before ++ window).length := by
    simp
  simp only [splice]
  rw [hlength, List.drop_left, List.append_assoc, List.take_left, List.drop_left,
    List.take_left]

/-- A window in front is gathered before what stands behind it. -/
theorem splice_front
    (window behind : List Limb)
    (lhs : Nonterminal) :
    splice (window ++ behind) ⟨0, window.length, lhs⟩ = phrase lhs window :: behind :=
  splice_append [] window behind lhs

/-- Limbs over split symbols split in the same way. -/
theorem symbols_eq_append
    {limbs : List Limb}
    {before window behind : List Symbol}
    (h : symbols limbs = before ++ window ++ behind) :
    ∃ as ws bs,
      limbs = as ++ ws ++ bs ∧ symbols as = before ∧ symbols ws = window ∧
        symbols bs = behind := by
  obtain ⟨front, bs, rfl, hfront, hbs⟩ := List.map_eq_append_iff.1 h
  obtain ⟨as, ws, rfl, has, hws⟩ := List.map_eq_append_iff.1 hfront
  exact ⟨as, ws, bs, rfl, has, hws, hbs⟩

/--
The next reduction, seen on the limbs: they split around a window that the
production applies to, and splicing puts the phrase in its place.
-/
theorem nextReduction?_limbs
    {mode : Mode}
    {limbs : List Limb}
    {p : Production}
    {r : Reduction}
    (h : nextReduction? mode (symbols limbs) = some (p, r)) :
    ∃ before window behind,
      limbs = before ++ window ++ behind ∧
        r = ⟨before.length, window.length, p.lhs⟩ ∧
        p.Applies mode (symbols before) (symbols window) (symbols behind) := by
  obtain ⟨_, _, _, hsplit, hr, happlies⟩ := nextReduction?_eq_some h
  obtain ⟨as, ws, bs, rfl, rfl, rfl, rfl⟩ := symbols_eq_append hsplit
  exact ⟨as, ws, bs, rfl, by simpa using hr, happlies⟩

end Limb
end CometLang
