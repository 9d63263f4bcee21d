import CometLang.Token.Kind

/-!
# Sentences

The grammar of programs, as a set of sequences of kinds of tokens. It does not
mention how a program is parsed.

* An arithmetic expression is a sequence of two operands at least, with
  operators between them.
* A condition is a chain of comparisons in parentheses.
* A block is one item at least, in braces; an item is a statement or a bare
  arithmetic expression.
* A program is empty, or a sequence of items that ends with a statement, or one
  arithmetic expression.
-/

namespace CometLang

/-- The kind of a token that stands for a value. -/
def Kind.isOperand : Kind → Bool
  | identifier | cometLiteral => true
  | _ => false

namespace Sentence

/-- One phrase at least of a sort, with separators between the phrases. -/
inductive Joined
    (sort : List Kind → Prop)
    (separator : Kind → Bool) :
    List Kind → Prop
  | one
      {u : List Kind}
      (hu : sort u) :
      Joined sort separator u
  | more
      {u v : List Kind}
      {k : Kind}
      (hu : sort u)
      (hk : separator k = true)
      (hv : Joined sort separator v) :
      Joined sort separator (u ++ k :: v)

/-- Two sequences with a separator between them are one. -/
theorem Joined.append
    {sort : List Kind → Prop}
    {separator : Kind → Bool}
    {u v : List Kind}
    {k : Kind}
    (hu : Joined sort separator u)
    (hk : separator k = true)
    (hv : Joined sort separator v) :
    Joined sort separator (u ++ k :: v) := by
  induction hu with
  | one hu =>
      exact .more hu hk hv
  | more hfirst hk' _ ih =>
      rw [List.append_assoc, List.cons_append]
      exact .more hfirst hk' ih

/-- An identifier or a literal. -/
def Operand (w : List Kind) : Prop :=
  ∃ k, k.isOperand = true ∧ w = [k]

/-- Two operands at least, with operators between them. -/
def Arithmetic (w : List Kind) : Prop :=
  ∃ u k v,
    Operand u ∧ k.isArithmetic = true ∧ Joined Operand Kind.isArithmetic v ∧
      w = u ++ k :: v

/-- What a variable can be set to. -/
def Value (w : List Kind) : Prop :=
  Operand w ∨ Arithmetic w

/-- Two operands with a comparison between them. -/
def Comparison (w : List Kind) : Prop :=
  ∃ u k v, Operand u ∧ k.isRelational = true ∧ Operand v ∧ w = u ++ k :: v

/-- Comparisons with connectives between them, in parentheses. -/
def Condition (w : List Kind) : Prop :=
  ∃ v, Joined Comparison Kind.isLogical v ∧ w = .openParen :: (v ++ [.closeParen])

/-- A string or an identifier in parentheses, and a semicolon. -/
def Argument (w : List Kind) : Prop :=
  ∃ k, (k = .string ∨ k = .identifier) ∧ w = [.openParen, k, .closeParen, .semicolon]

/-- The sorts of phrases that contain each other. -/
inductive Category where
  | block
  | statement
  | item
  | items (count : Nat)
deriving DecidableEq, Repr

/-- The sequence of kinds is a phrase of the category. -/
inductive Derives : Category → List Kind → Prop
  | declaration
      {v : List Kind}
      (hv : Value v) :
      Derives .statement ([.comet, .identifier, .assignment] ++ v ++ [.semicolon])
  | assignment
      {v : List Kind}
      (hv : Value v) :
      Derives .statement ([.identifier, .assignment] ++ v ++ [.semicolon])
  | transmission
      {a : List Kind}
      (ha : Argument a) :
      Derives .statement (.transmission :: a)
  | reception
      {a : List Kind}
      (ha : Argument a) :
      Derives .statement ([.identifier, .assignment, .reception] ++ a)
  | orbit
      {c b : List Kind}
      (hc : Condition c)
      (hb : Derives .block b) :
      Derives .statement (.orbit :: c ++ b ++ [.semicolon])
  | orbitPropel
      {c b b' : List Kind}
      (hc : Condition c)
      (hb : Derives .block b)
      (hb' : Derives .block b') :
      Derives .statement (.orbit :: c ++ b ++ (.propel :: b') ++ [.semicolon])
  | orbitNavigatePropel
      {c b c' b' b'' : List Kind}
      (hc : Condition c)
      (hb : Derives .block b)
      (hc' : Condition c')
      (hb' : Derives .block b')
      (hb'' : Derives .block b'') :
      Derives .statement
        (.orbit :: c ++ b ++ (.navigate :: c' ++ b') ++ (.propel :: b'') ++ [.semicolon])
  | whirl
      {c b : List Kind}
      (hc : Condition c)
      (hb : Derives .block b) :
      Derives .statement (.whirl :: c ++ b ++ [.semicolon])
  | launch
      {b c : List Kind}
      (hb : Derives .block b)
      (hc : Condition c) :
      Derives .statement (.launch :: b ++ (.whirl :: c) ++ [.semicolon])
  | block
      {count : Nat}
      {w : List Kind}
      (hw : Derives (.items (count + 1)) w) :
      Derives .block (.openBrace :: w ++ [.closeBrace])
  | statement
      {w : List Kind}
      (hw : Derives .statement w) :
      Derives .item w
  | arithmetic
      {w : List Kind}
      (hw : Arithmetic w) :
      Derives .item w
  | none :
      Derives (.items 0) []
  | more
      {count : Nat}
      {u v : List Kind}
      (hu : Derives .item u)
      (hv : Derives (.items count) v) :
      Derives (.items (count + 1)) (u ++ v)

/-- So many items, the last of which is a statement. -/
def Items
    (count : Nat)
    (w : List Kind) : Prop :=
  ∃ n u v,
    count = n + 1 ∧ Derives (.items n) u ∧ Derives .statement v ∧ w = u ++ v

/-- The sequence of kinds is a program. -/
def Program (w : List Kind) : Prop :=
  w = [] ∨ (∃ count, Items count w) ∨ Arithmetic w

end Sentence
end CometLang
