import CometLang.Derivation.Tree
import CometLang.Proofs.Abstract

/-!
# Shapes of trees

The tree of a phrase shows an abstract phrase if it is built as the grammar
builds it, from tokens that spell the phrase. Of an arithmetic expression only
its leaves count: the factors and terms above them depend on where it stands.

What a phrase shows fixes all that a run of its tree depends on.
-/

namespace CometLang
namespace Abstract

/-- The tree is a phrase over a single token, and the token matches the piece. -/
def Piece.Under
    (piece : Piece)
    (form : Nonterminal)
    (t : Tree) : Prop :=
  ∃ token, piece.Matches token ∧ t = .node (.nonterminal form) [.leaf token]

def Name.Shows
    (n : Name)
    (t : Tree) : Prop :=
  n.piece.Under .identifier t

/-- The phrase that an operand is gathered into. -/
def Operand.form : Operand → Nonterminal
  | name _ => .identifier
  | literal _ _ => .cometLiteral

def Operand.Shows
    (o : Operand)
    (t : Tree) : Prop :=
  o.piece.Under o.form t

def Arithmetic.Shows
    (a : Arithmetic)
    (t : Tree) : Prop :=
  ∃ children, t = .node (.nonterminal .arithExp) children ∧ Spelt a.pieces t.leaves

def Value.Shows : Value → Tree → Prop
  | operand o, t => o.Shows t
  | arithmetic a, t => a.Shows t

def Comparison.Shows
    (c : Comparison)
    (t : Tree) : Prop :=
  ∃ left sign right,
    t = .node (.nonterminal .relationalExp)
        [left, .node (.nonterminal .relationalOp) [.leaf sign], right] ∧
      c.left.Shows left ∧ sign.kind = c.comparator.kind ∧ c.right.Shows right

/-- The trees are those of the links, two for each. -/
def Link.Show : List Link → List Tree → Prop
  | [], trees => trees = []
  | link :: links, trees =>
      ∃ sign comparison rest,
        trees = .node (.nonterminal .logicalOp) [.leaf sign] :: comparison :: rest ∧
          sign.kind = link.connective.kind ∧ link.comparison.Shows comparison ∧
          Link.Show links rest

/-- A single comparison stands for itself, a longer chain is a phrase. -/
def Condition.Shows
    (c : Condition)
    (t : Tree) : Prop :=
  ∃ opening inner closing,
    t = .node (.nonterminal .conditionalExp) [.leaf opening, inner, .leaf closing] ∧
      match c.links with
      | [] => c.first.Shows inner
      | link :: links =>
          ∃ first rest,
            inner = .node (.nonterminal .logicalExp) (first :: rest) ∧
              c.first.Shows first ∧ Link.Show (link :: links) rest

/-- The phrase that an argument is gathered into. -/
def Argument.form : Argument → Nonterminal
  | text _ => .string
  | name _ => .identifier

def Argument.Shows
    (a : Argument)
    (t : Tree) : Prop :=
  ∃ opening inner closing semicolon,
    t = .node (.nonterminal .ioStmt)
        [.leaf opening, inner, .leaf closing, .leaf semicolon] ∧
      a.piece.Under a.form inner

/-- The tree is a block around trees with the given property. -/
def Encloses
    (inside : List Tree → Prop)
    (t : Tree) : Prop :=
  ∃ opening trees closing,
    t = .node (.nonterminal .stmt) (.leaf opening :: (trees ++ [.leaf closing])) ∧ inside trees

mutual

def Statement.Shows : Statement → Tree → Prop
  | .declaration target value, t =>
      ∃ comet name sign right semicolon,
        t = .node (.nonterminal .decStmt)
            [.leaf comet, name, .leaf sign, right, .leaf semicolon] ∧
          comet.kind = .comet ∧ sign.kind = .assignment ∧
          target.Shows name ∧ value.Shows right
  | .assignment target value, t =>
      ∃ name sign right semicolon,
        t = .node (.nonterminal .assignStmt)
            [name, .leaf sign, right, .leaf semicolon] ∧
          sign.kind = .assignment ∧ target.Shows name ∧ value.Shows right
  | .transmission argument, t =>
      ∃ word io,
        t = .node (.nonterminal .transmissionStmt) [.leaf word, io] ∧ argument.Shows io
  | .reception target prompt, t =>
      ∃ name sign word io,
        t = .node (.nonterminal .receptionStmt) [name, .leaf sign, .leaf word, io] ∧
          target.Shows name ∧ prompt.Shows io
  | .orbit guard body, t =>
      ∃ word condition block semicolon,
        t = .node (.nonterminal .orbitStmt)
            [.leaf word, condition, block, .leaf semicolon] ∧
          guard.Shows condition ∧ Encloses body.Show block
  | .orbitPropel guard body otherwise, t =>
      ∃ word condition block propel last semicolon,
        t = .node (.nonterminal .orbitStmt)
            [.leaf word, condition, block,
              .node (.nonterminal .propelStmt) [.leaf propel, last], .leaf semicolon] ∧
          guard.Shows condition ∧ Encloses body.Show block ∧ Encloses otherwise.Show last
  | .orbitNavigatePropel guard body second alternative otherwise, t =>
      ∃ word condition block navigate other middle propel last semicolon,
        t = .node (.nonterminal .orbitStmt)
            [.leaf word, condition, block,
              .node (.nonterminal .navigateStmt) [.leaf navigate, other, middle],
              .node (.nonterminal .propelStmt) [.leaf propel, last], .leaf semicolon] ∧
          guard.Shows condition ∧ Encloses body.Show block ∧
          second.Shows other ∧ Encloses alternative.Show middle ∧
          Encloses otherwise.Show last
  | .whirl position guard body, t =>
      ∃ word condition block semicolon,
        t = .node (.nonterminal .whirlLoop)
            [.leaf word, condition, block, .leaf semicolon] ∧
          word.position = position ∧ guard.Shows condition ∧ Encloses body.Show block
  | .launch position body guard, t =>
      ∃ word block whirl condition semicolon,
        t = .node (.nonterminal .launchWhirlLoop)
            [.leaf word, block, .leaf whirl, condition, .leaf semicolon] ∧
          word.position = position ∧ Encloses body.Show block ∧ guard.Shows condition

def Item.Shows : Item → Tree → Prop
  | .statement s, t =>
      ∃ inner, t = .node (.nonterminal .expr) [inner] ∧ s.Shows inner
  | .arithmetic a, t =>
      ∃ inner, t = .node (.nonterminal .expr) [inner] ∧ a.Shows inner

/-- The trees are those of the items, one for each. -/
def Body.Show : Body → List Tree → Prop
  | .last item, trees =>
      ∃ t, trees = [t] ∧ item.Shows t
  | .more item rest, trees =>
      ∃ t others, trees = t :: others ∧ item.Shows t ∧ rest.Show others

end

/-- The trees are those right below the root of the program's tree. -/
def Program.Show : Program → List Tree → Prop
  | empty, trees => trees = []
  | items before last, trees =>
      List.Forall₂ Item.Shows (before ++ [.statement last]) trees
  | arithmetic a, trees => ∃ t, trees = [t] ∧ a.Shows t

end Abstract
end CometLang
