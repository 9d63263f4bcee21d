import CometLang.Grammar.Symbol

/-!
# Parse trees

A tree is a label over its children, in source order. The root is labelled as
the program; below it stand tokens and phrases. The tokens of a tree, read from
left to right, are its leaves.
-/

namespace CometLang

/-- What a node of a parse tree is. -/
inductive Label where
  | program
  | token (token : Token)
  | nonterminal (form : Nonterminal)
deriving DecidableEq, Repr

namespace Label

/-- The tag of a token, or the name of a phrase. -/
def text : Label → String
  | program => "Program"
  | token t => t.tag
  | nonterminal form => form.name

/-- The token of a label. -/
def token? : Label → Option Token
  | token t => some t
  | _ => none

/-- The kind of phrase of a label. -/
def form? : Label → Option Nonterminal
  | nonterminal form => some form
  | _ => none

end Label

/-- A label over a list of trees. -/
inductive Tree where
  | node (label : Label) (children : List Tree)
deriving Repr

namespace Tree

/-- The label at the top. -/
def label : Tree → Label
  | node label _ => label

/-- The trees right below the top. -/
def children : Tree → List Tree
  | node _ children => children

/-- The tree of a single token. -/
def leaf (token : Token) : Tree :=
  node (.token token) []

/-- The tree of a program of which nothing is known yet. -/
def program : Tree :=
  node .program []

instance : Inhabited Tree :=
  ⟨program⟩

/-- The token at the top. -/
def token? (t : Tree) : Option Token :=
  t.label.token?

/-- The kind of phrase at the top. -/
def form? (t : Tree) : Option Nonterminal :=
  t.label.form?

/-- A phrase of the given kind. -/
def isForm
    (t : Tree)
    (form : Nonterminal) : Bool :=
  t.form? == some form

/-- The tree with one more child at the end. -/
def addChild
    (t child : Tree) : Tree :=
  node t.label (t.children ++ [child])

/--
Gathers `width` children from `start` on under a new phrase, which takes their
place. There is no result if so many children do not exist.
-/
def collapse?
    (t : Tree)
    (start width : Nat)
    (lhs : Nonterminal) : Option Tree :=
  if start + width ≤ t.children.length then
    let gathered := (t.children.drop start).take width
    some (node t.label
      (t.children.take start
        ++ node (.nonterminal lhs) gathered :: t.children.drop (start + width)))
  else
    none

/-- The first child that is a phrase of the given kind. -/
def child?
    (t : Tree)
    (form : Nonterminal) : Option Tree :=
  t.children.find? (·.isForm form)

/-- The first child that is a token of the given kind. -/
def tokenChild?
    (t : Tree)
    (kind : Kind) : Option Token :=
  (t.children.filterMap token?).find? (·.kind = kind)

mutual

/-- The tokens of a tree, left to right; a token stands before those below it. -/
def leaves : Tree → List Token
  | node label children => label.token?.toList ++ leavesOfAll children

/-- The tokens of several trees, left to right. -/
def leavesOfAll : List Tree → List Token
  | [] => []
  | t :: rest => leaves t ++ leavesOfAll rest

end

/-- The tokens of two lists of trees one after the other. -/
@[simp] theorem leavesOfAll_append
    (as bs : List Tree) :
    leavesOfAll (as ++ bs) = leavesOfAll as ++ leavesOfAll bs := by
  induction as with
  | nil =>
      simp [leavesOfAll]
  | cons a as ih =>
      simp [leavesOfAll, ih]

mutual

/-- The lines of a tree that stands at the given depth. -/
def textAt (depth : Nat) : Tree → String
  | node label children =>
      String.join (List.replicate depth "|____") ++ label.text ++ "\n"
        ++ textOfAll (depth + 1) children

/-- The lines of several trees that stand at the given depth. -/
def textOfAll (depth : Nat) : List Tree → String
  | [] => ""
  | t :: rest => textAt depth t ++ textOfAll depth rest

end

/-- A tree as text: one line for each node, indented by its depth. -/
def text (t : Tree) : String :=
  textAt 0 t

mutual

/-- Whether two trees are the same. -/
def same : Tree → Tree → Bool
  | node a as, node b bs => decide (a = b) && sameAll as bs

/-- Whether two lists of trees are the same. -/
def sameAll : List Tree → List Tree → Bool
  | [], [] => true
  | a :: as, b :: bs => same a b && sameAll as bs
  | _, _ => false

end

end Tree
end CometLang
