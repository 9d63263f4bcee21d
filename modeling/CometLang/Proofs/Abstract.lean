import CometLang.Proofs.Sentence
import CometLang.Token.Basic
import Mathlib.Data.List.Forall2

/-!
# Abstract programs

An abstract program is a derivation of the grammar without its punctuation. It
keeps what a run of the program depends on: names, literals and strings, and the
positions at which a fault can be blamed on something.

How an abstract program is spelt is a list of pieces. A piece fixes the kind of
a token and, where the abstract program depends on them, its value and its
position. A list of tokens spells the program if its tokens match the pieces one
by one; punctuation may have any value and stand anywhere.
-/

namespace CometLang
namespace Abstract

/-- What a token of a spelling must be. -/
structure Piece where
  kind : Kind
  value? : Option String := none
  position? : Option Position := none
deriving DecidableEq, Repr

namespace Piece

/-- A token of a kind, whatever its value and its place. -/
def fixed (kind : Kind) : Piece :=
  ⟨kind, none, none⟩

@[simp] theorem kind_fixed
    (kind : Kind) :
    (fixed kind).kind = kind := by
  rfl

/-- The token is what the piece asks for. -/
structure Matches
    (piece : Piece)
    (token : Token) : Prop where
  kind : token.kind = piece.kind
  value : ∀ v ∈ piece.value?, token.value = v
  position : ∀ p ∈ piece.position?, token.position = p

end Piece

/-- The tokens match the pieces one by one. -/
abbrev Spelt
    (pieces : List Piece)
    (tokens : List Token) : Prop :=
  List.Forall₂ Piece.Matches pieces tokens

/-- An identifier, and where it is written. -/
structure Name where
  text : String
  position : Position
deriving DecidableEq, Repr

/-- An identifier or a literal. -/
inductive Operand where
  | name (name : Name)
  | literal (text : String) (position : Position)
deriving DecidableEq, Repr

/-- An arithmetic operator; a division may be blamed. -/
inductive Operator where
  | plus
  | minus
  | times
  | divide (position : Position)
deriving DecidableEq, Repr

/-- An operator and the operand behind it. -/
structure Operation where
  operator : Operator
  operand : Operand
deriving DecidableEq, Repr

/-- Operands with operators between them, two operands at least. -/
structure Arithmetic where
  first : Operand
  second : Operation
  more : List Operation
deriving DecidableEq, Repr

/-- What a variable is set to. -/
inductive Value where
  | operand (operand : Operand)
  | arithmetic (arithmetic : Arithmetic)
deriving DecidableEq, Repr

/-- One of the six comparisons. -/
inductive Comparator where
  | equals
  | notEquals
  | greater
  | less
  | greaterEquals
  | lessEquals
deriving DecidableEq, Repr

/-- Two operands that are compared. -/
structure Comparison where
  left : Operand
  comparator : Comparator
  right : Operand
deriving DecidableEq, Repr

/-- A connective of a chain. -/
inductive Connective where
  | and
  | or
deriving DecidableEq, Repr

/-- A connective and the comparison behind it. -/
structure Link where
  connective : Connective
  comparison : Comparison
deriving DecidableEq, Repr

/-- A chain of comparisons. -/
structure Condition where
  first : Comparison
  links : List Link
deriving DecidableEq, Repr

/-- What is transmitted: a string, with its quotes, or the value of a name. -/
inductive Argument where
  | text (quoted : String)
  | name (name : Name)
deriving DecidableEq, Repr

mutual

/-- A statement; a loop is blamed at its first word. -/
inductive Statement where
  | declaration (target : Name) (value : Value)
  | assignment (target : Name) (value : Value)
  | transmission (argument : Argument)
  | reception (target : Name) (prompt : Argument)
  | orbit (guard : Condition) (body : Body)
  | orbitPropel (guard : Condition) (body otherwise : Body)
  | orbitNavigatePropel
      (guard : Condition) (body : Body)
      (second : Condition) (alternative otherwise : Body)
  | whirl (position : Position) (guard : Condition) (body : Body)
  | launch (position : Position) (body : Body) (guard : Condition)

/-- A statement or an arithmetic expression that is evaluated for nothing. -/
inductive Item where
  | statement (statement : Statement)
  | arithmetic (arithmetic : Arithmetic)

/-- The items of a block, of which there is one at least. -/
inductive Body where
  | last (item : Item)
  | more (item : Item) (rest : Body)

end

/-- A whole program. -/
inductive Program where
  | empty
  | items (before : List Item) (last : Statement)
  | arithmetic (arithmetic : Arithmetic)

/-! ## Spellings -/

def Name.piece (n : Name) : Piece :=
  ⟨.identifier, some n.text, some n.position⟩

@[simp] theorem Name.kind_piece
    (n : Name) :
    n.piece.kind = .identifier := by
  rfl

def Operand.piece : Operand → Piece
  | name n => n.piece
  | literal text position => ⟨.cometLiteral, some text, some position⟩

def Operator.piece : Operator → Piece
  | plus => .fixed .plus
  | minus => .fixed .minus
  | times => .fixed .star
  | divide position => ⟨.slash, none, some position⟩

def Operation.pieces (o : Operation) : List Piece :=
  [o.operator.piece, o.operand.piece]

def Arithmetic.pieces (a : Arithmetic) : List Piece :=
  a.first.piece :: (a.second :: a.more).flatMap Operation.pieces

def Value.pieces : Value → List Piece
  | operand o => [o.piece]
  | arithmetic a => a.pieces

def Comparator.kind : Comparator → Kind
  | equals => .equals
  | notEquals => .notEquals
  | greater => .greater
  | less => .less
  | greaterEquals => .greaterEquals
  | lessEquals => .lessEquals

def Comparison.pieces (c : Comparison) : List Piece :=
  [c.left.piece, .fixed c.comparator.kind, c.right.piece]

def Connective.kind : Connective → Kind
  | and => .and
  | or => .or

def Link.pieces (l : Link) : List Piece :=
  .fixed l.connective.kind :: l.comparison.pieces

def Condition.pieces (c : Condition) : List Piece :=
  .fixed .openParen ::
    (c.first.pieces ++ c.links.flatMap Link.pieces ++ [.fixed .closeParen])

def Argument.piece : Argument → Piece
  | text quoted => ⟨.string, some quoted, none⟩
  | name n => n.piece

def Argument.pieces (a : Argument) : List Piece :=
  [.fixed .openParen, a.piece, .fixed .closeParen, .fixed .semicolon]

/-- Pieces with braces around them. -/
def braced (pieces : List Piece) : List Piece :=
  .fixed .openBrace :: (pieces ++ [.fixed .closeBrace])

mutual

def Statement.pieces : Statement → List Piece
  | .declaration target value =>
      [.fixed .comet, target.piece, .fixed .assignment] ++ value.pieces
        ++ [.fixed .semicolon]
  | .assignment target value =>
      [target.piece, .fixed .assignment] ++ value.pieces ++ [.fixed .semicolon]
  | .transmission argument =>
      .fixed .transmission :: argument.pieces
  | .reception target prompt =>
      [target.piece, .fixed .assignment, .fixed .reception] ++ prompt.pieces
  | .orbit guard body =>
      .fixed .orbit :: guard.pieces ++ braced body.pieces ++ [.fixed .semicolon]
  | .orbitPropel guard body otherwise =>
      .fixed .orbit :: guard.pieces ++ braced body.pieces
        ++ (.fixed .propel :: braced otherwise.pieces) ++ [.fixed .semicolon]
  | .orbitNavigatePropel guard body second alternative otherwise =>
      .fixed .orbit :: guard.pieces ++ braced body.pieces
        ++ (.fixed .navigate :: second.pieces ++ braced alternative.pieces)
        ++ (.fixed .propel :: braced otherwise.pieces) ++ [.fixed .semicolon]
  | .whirl position guard body =>
      ⟨.whirl, none, some position⟩ :: guard.pieces ++ braced body.pieces ++ [.fixed .semicolon]
  | .launch position body guard =>
      ⟨.launch, none, some position⟩ :: braced body.pieces ++ (.fixed .whirl :: guard.pieces)
        ++ [.fixed .semicolon]

def Item.pieces : Item → List Piece
  | .statement s => s.pieces
  | .arithmetic a => a.pieces

def Body.pieces : Body → List Piece
  | .last item => item.pieces
  | .more item rest => item.pieces ++ rest.pieces

end

def Program.pieces : Program → List Piece
  | empty => []
  | items before last => before.flatMap Item.pieces ++ last.pieces
  | arithmetic a => a.pieces

/-- The tokens spell the program. -/
def Program.Spells
    (program : Program)
    (tokens : List Token) : Prop :=
  Spelt program.pieces tokens

/-- The token that is what the piece asks for, and nothing more. -/
def Piece.token (piece : Piece) : Token :=
  ⟨piece.kind, piece.value?.getD "", ⟨piece.position?.getD .unknown, .unknown⟩⟩

theorem Piece.matches_token
    (piece : Piece) :
    piece.Matches piece.token := by
  obtain ⟨kind, value, position⟩ := piece
  refine ⟨rfl, ?_, ?_⟩
  · rintro v rfl
    rfl
  · rintro p rfl
    rfl

/-- The program written with the tokens that its pieces ask for. -/
def Program.spelling (program : Program) : List Token :=
  program.pieces.map Piece.token

/-- Every program can be spelt. -/
theorem Program.spells_spelling
    (program : Program) :
    program.Spells program.spelling := by
  rw [Program.Spells, Program.spelling, Spelt, List.forall₂_map_right_iff, List.forall₂_same]
  intro piece _
  exact piece.matches_token

/-! ## Every sentence spells an abstract program -/

/-- A token of the kind matches a piece that asks for no more. -/
theorem Piece.matches_fixed
    {token : Token}
    {kind : Kind}
    (h : token.kind = kind) :
    (Piece.fixed kind).Matches token :=
  ⟨h, by simp [Piece.fixed], by simp [Piece.fixed]⟩

/-- A single token of the kind is spelt by the piece that asks for no more. -/
theorem spelt_single
    {tokens : List Token}
    {kind : Kind}
    (h : tokens.map Token.kind = [kind]) :
    Spelt [.fixed kind] tokens := by
  obtain ⟨token, rest, rfl, hkind, hrest⟩ := List.map_eq_cons_iff.1 h
  obtain rfl := List.map_eq_nil_iff.1 hrest
  exact .cons (Piece.matches_fixed hkind) .nil

theorem spelt_cons
    {piece : Piece}
    {pieces : List Piece}
    {tokens : List Token}
    (h : Spelt (piece :: pieces) tokens) :
    ∃ token rest, tokens = token :: rest ∧ piece.Matches token ∧ Spelt pieces rest := by
  cases h with
  | cons htoken hrest =>
      exact ⟨_, _, rfl, htoken, hrest⟩

theorem spelt_one
    {piece : Piece}
    {tokens : List Token}
    (h : Spelt [piece] tokens) :
    ∃ token, tokens = [token] ∧ piece.Matches token := by
  obtain ⟨token, rest, rfl, htoken, hrest⟩ := spelt_cons h
  obtain rfl := List.forall₂_nil_left_iff.1 hrest
  exact ⟨token, rfl, htoken⟩

/-- What spells two lists of pieces is spelt one list after the other. -/
theorem spelt_append
    {as bs : List Piece}
    {tokens : List Token}
    (h : Spelt (as ++ bs) tokens) :
    ∃ us vs, tokens = us ++ vs ∧ Spelt as us ∧ Spelt bs vs := by
  induction as generalizing tokens with
  | nil =>
      exact ⟨[], tokens, rfl, .nil, h⟩
  | cons piece as ih =>
      obtain ⟨token, rest, rfl, hpiece, hrest⟩ := spelt_cons h
      obtain ⟨us, vs, rfl, hus, hvs⟩ := ih hrest
      exact ⟨token :: us, vs, rfl, .cons hpiece hus, hvs⟩

/-- What is spelt has a token for every piece. -/
theorem exists_matching
    {pieces : List Piece}
    {tokens : List Token}
    (h : Spelt pieces tokens)
    {piece : Piece}
    (hpiece : piece ∈ pieces) :
    ∃ token ∈ tokens, piece.Matches token := by
  induction h with
  | nil =>
      cases hpiece
  | cons hfirst _ ih =>
      rcases List.mem_cons.1 hpiece with rfl | hrest
      · exact ⟨_, by simp, hfirst⟩
      · obtain ⟨token, htoken, hmatches⟩ := ih hrest
        exact ⟨token, by simp [htoken], hmatches⟩

/-- What is spelt has the kinds that are asked for. -/
theorem map_kind_of_spelt
    {pieces : List Piece}
    {tokens : List Token}
    (h : Spelt pieces tokens) :
    tokens.map Token.kind = pieces.map Piece.kind := by
  induction h with
  | nil =>
      rfl
  | cons hfirst _ ih =>
      rw [List.map_cons, List.map_cons, hfirst.kind, ih]

/-- A token is spelt by the piece that asks for its value and its place. -/
theorem Piece.matches_exact
    {token : Token}
    {kind : Kind}
    (h : token.kind = kind) :
    (Piece.mk kind (some token.value) (some token.position)).Matches token :=
  ⟨h, by simp, by simp⟩

/-- A token is spelt by the piece that asks for its place. -/
theorem Piece.matches_at
    {token : Token}
    {kind : Kind}
    (h : token.kind = kind) :
    (Piece.mk kind none (some token.position)).Matches token :=
  ⟨h, by simp, by simp⟩

/-- An identifier is the name it writes. -/
theorem exists_name
    {token : Token}
    (h : token.kind = .identifier) :
    ∃ n : Name, n.piece.Matches token :=
  ⟨⟨token.value, token.position⟩, Piece.matches_exact h⟩

/-- A token for a value is an operand. -/
theorem exists_operand
    {tokens : List Token}
    (h : Sentence.Operand (tokens.map Token.kind)) :
    ∃ (o : Operand) (token : Token), tokens = [token] ∧ o.piece.Matches token := by
  obtain ⟨k, hk, hkinds⟩ := h
  obtain ⟨token, rest, rfl, hkind, hrest⟩ := List.map_eq_cons_iff.1 hkinds
  obtain rfl := List.map_eq_nil_iff.1 hrest
  cases k with
  | identifier =>
      obtain ⟨n, hn⟩ := exists_name hkind
      exact ⟨.name n, token, rfl, hn⟩
  | cometLiteral =>
      exact ⟨.literal token.value token.position, token, rfl, Piece.matches_exact hkind⟩
  | _ =>
      cases hk

/-- A token for an operation is an operator. -/
theorem exists_operator
    {token : Token}
    (h : token.kind.isArithmetic = true) :
    ∃ o : Operator, o.piece.Matches token := by
  cases hkind : token.kind with
  | plus =>
      exact ⟨.plus, Piece.matches_fixed hkind⟩
  | minus =>
      exact ⟨.minus, Piece.matches_fixed hkind⟩
  | star =>
      exact ⟨.times, Piece.matches_fixed hkind⟩
  | slash =>
      exact ⟨.divide token.position, Piece.matches_at hkind⟩
  | _ =>
      rw [hkind] at h
      cases h

/-- Joined operands are a first one and operations behind it. -/
theorem exists_operations
    {w : List Kind}
    (h : Sentence.Joined Sentence.Operand Kind.isArithmetic w)
    {tokens : List Token}
    (hkinds : tokens.map Token.kind = w) :
    ∃ (first : Operand) (operations : List Operation),
      Spelt (first.piece :: operations.flatMap Operation.pieces) tokens := by
  induction h generalizing tokens with
  | one hu =>
      obtain ⟨o, token, rfl, ho⟩ := exists_operand (hkinds ▸ hu)
      exact ⟨o, [], .cons ho .nil⟩
  | more hu hk _ ih =>
      obtain ⟨as, more, rfl, has, hmore⟩ := List.map_eq_append_iff.1 hkinds
      obtain ⟨token, rest, rfl, hkind, hrest⟩ := List.map_eq_cons_iff.1 hmore
      obtain ⟨o, first, rfl, ho⟩ := exists_operand (has ▸ hu)
      obtain ⟨operator, hoperator⟩ := exists_operator (hkind ▸ hk)
      obtain ⟨operand, operations, hspelt⟩ := ih hrest
      exact ⟨o, ⟨operator, operand⟩ :: operations, .cons ho (.cons hoperator hspelt)⟩

theorem exists_arithmetic
    {tokens : List Token}
    (h : Sentence.Arithmetic (tokens.map Token.kind)) :
    ∃ a : Arithmetic, Spelt a.pieces tokens := by
  obtain ⟨u, k, v, hu, hk, hv, hkinds⟩ := h
  obtain ⟨as, more, rfl, has, hmore⟩ := List.map_eq_append_iff.1 hkinds
  obtain ⟨token, rest, rfl, hkind, hrest⟩ := List.map_eq_cons_iff.1 hmore
  obtain ⟨o, first, rfl, ho⟩ := exists_operand (has ▸ hu)
  obtain ⟨operator, hoperator⟩ := exists_operator (hkind ▸ hk)
  obtain ⟨operand, operations, hspelt⟩ := exists_operations hv hrest
  exact ⟨⟨o, ⟨operator, operand⟩, operations⟩, .cons ho (.cons hoperator hspelt)⟩

theorem exists_value
    {tokens : List Token}
    (h : Sentence.Value (tokens.map Token.kind)) :
    ∃ v : Value, Spelt v.pieces tokens := by
  rcases h with hoperand | harithmetic
  · obtain ⟨o, token, rfl, ho⟩ := exists_operand hoperand
    exact ⟨.operand o, .cons ho .nil⟩
  · obtain ⟨a, ha⟩ := exists_arithmetic harithmetic
    exact ⟨.arithmetic a, ha⟩

theorem exists_comparison
    {tokens : List Token}
    (h : Sentence.Comparison (tokens.map Token.kind)) :
    ∃ c : Comparison, Spelt c.pieces tokens := by
  obtain ⟨u, k, v, hu, hk, hv, hkinds⟩ := h
  obtain ⟨as, more, rfl, has, hmore⟩ := List.map_eq_append_iff.1 hkinds
  obtain ⟨token, bs, rfl, hkind, hbs⟩ := List.map_eq_cons_iff.1 hmore
  obtain ⟨left, first, rfl, hleft⟩ := exists_operand (has ▸ hu)
  obtain ⟨right, second, rfl, hright⟩ := exists_operand (hbs ▸ hv)
  obtain ⟨comparator, hcomparator⟩ : ∃ c : Comparator, k = c.kind := by
    cases k with
    | equals => exact ⟨.equals, rfl⟩
    | notEquals => exact ⟨.notEquals, rfl⟩
    | greater => exact ⟨.greater, rfl⟩
    | less => exact ⟨.less, rfl⟩
    | greaterEquals => exact ⟨.greaterEquals, rfl⟩
    | lessEquals => exact ⟨.lessEquals, rfl⟩
    | _ => cases hk
  have htoken := Piece.matches_fixed (hkind.trans hcomparator)
  exact ⟨⟨left, comparator, right⟩, .cons hleft (.cons htoken (.cons hright .nil))⟩

/-- Joined comparisons are a first one and links behind it. -/
theorem exists_links
    {w : List Kind}
    (h : Sentence.Joined Sentence.Comparison Kind.isLogical w)
    {tokens : List Token}
    (hkinds : tokens.map Token.kind = w) :
    ∃ (first : Comparison) (links : List Link),
      Spelt (first.pieces ++ links.flatMap Link.pieces) tokens := by
  induction h generalizing tokens with
  | one hu =>
      obtain ⟨c, hc⟩ := exists_comparison (hkinds ▸ hu)
      exact ⟨c, [], by simpa using hc⟩
  | @more u v k hu hk _ ih =>
      obtain ⟨as, more, rfl, has, hmore⟩ := List.map_eq_append_iff.1 hkinds
      obtain ⟨token, rest, rfl, hkind, hrest⟩ := List.map_eq_cons_iff.1 hmore
      obtain ⟨first, hfirst⟩ := exists_comparison (has ▸ hu)
      obtain ⟨connective, hconnective⟩ : ∃ c : Connective, k = c.kind := by
        cases k with
        | and => exact ⟨.and, rfl⟩
        | or => exact ⟨.or, rfl⟩
        | _ => cases hk
      have htoken := Piece.matches_fixed (hkind.trans hconnective)
      obtain ⟨comparison, links, hspelt⟩ := ih hrest
      exact ⟨first, ⟨connective, comparison⟩ :: links,
        List.rel_append hfirst (.cons htoken hspelt)⟩

theorem exists_condition
    {tokens : List Token}
    (h : Sentence.Condition (tokens.map Token.kind)) :
    ∃ c : Condition, Spelt c.pieces tokens := by
  obtain ⟨v, hv, hkinds⟩ := h
  obtain ⟨opening, more, rfl, hopening, hmore⟩ := List.map_eq_cons_iff.1 hkinds
  obtain ⟨inner, ends, rfl, hinner, hends⟩ := List.map_eq_append_iff.1 hmore
  obtain ⟨closing, rest, rfl, hclosing, hrest⟩ := List.map_eq_cons_iff.1 hends
  obtain rfl := List.map_eq_nil_iff.1 hrest
  obtain ⟨first, links, hspelt⟩ := exists_links hv hinner
  exact ⟨⟨first, links⟩, .cons (Piece.matches_fixed hopening)
    (List.rel_append hspelt (.cons (Piece.matches_fixed hclosing) .nil))⟩

theorem exists_argument
    {tokens : List Token}
    (h : Sentence.Argument (tokens.map Token.kind)) :
    ∃ a : Argument, Spelt a.pieces tokens := by
  obtain ⟨k, hk, hkinds⟩ := h
  obtain ⟨opening, more, rfl, hopening, hmore⟩ := List.map_eq_cons_iff.1 hkinds
  obtain ⟨token, ends, rfl, hkind, hends⟩ := List.map_eq_cons_iff.1 hmore
  obtain ⟨closing, more, rfl, hclosing, hmore⟩ := List.map_eq_cons_iff.1 hends
  obtain ⟨semicolon, rest, rfl, hsemicolon, hrest⟩ := List.map_eq_cons_iff.1 hmore
  obtain rfl := List.map_eq_nil_iff.1 hrest
  obtain ⟨a, ha⟩ : ∃ a : Argument, a.piece.Matches token := by
    rcases hk with rfl | rfl
    · exact ⟨.text token.value, hkind, by simp [Argument.piece], by simp [Argument.piece]⟩
    · obtain ⟨n, hn⟩ := exists_name hkind
      exact ⟨.name n, hn⟩
  exact ⟨a, .cons (Piece.matches_fixed hopening) (.cons ha
    (.cons (Piece.matches_fixed hclosing) (.cons (Piece.matches_fixed hsemicolon) .nil)))⟩

/-- The tokens spell something of the category. -/
def SpeltAs : Sentence.Category → List Token → Prop
  | .statement, tokens => ∃ s : Statement, Spelt s.pieces tokens
  | .item, tokens => ∃ i : Item, Spelt i.pieces tokens
  | .block, tokens => ∃ b : Body, Spelt (braced b.pieces) tokens
  | .items count, tokens =>
      ∃ items : List Item,
        items.length = count ∧ Spelt (items.flatMap Item.pieces) tokens

/-- Items of which there is one at least are a body. -/
theorem exists_body
    (item : Item)
    (items : List Item) :
    ∃ b : Body, b.pieces = (item :: items).flatMap Item.pieces := by
  induction items generalizing item with
  | nil =>
      exact ⟨.last item, by simp [Body.pieces]⟩
  | cons next items ih =>
      obtain ⟨rest, hrest⟩ := ih next
      exact ⟨.more item rest, by simp [Body.pieces, hrest]⟩

/-- A word, a condition and a block spell a guarded body behind the word. -/
theorem exists_guarded
    {word : Kind}
    {c b : List Kind}
    {tokens : List Token}
    (hc : Sentence.Condition c)
    (hb : ∀ {tokens : List Token}, tokens.map Token.kind = b → SpeltAs .block tokens)
    (hkinds : tokens.map Token.kind = word :: c ++ b) :
    ∃ token rest guard body,
      tokens = token :: rest ∧ token.kind = word ∧
        Spelt (Condition.pieces guard ++ braced (Body.pieces body)) rest := by
  obtain ⟨head, bs, rfl, hhead, hbs⟩ := List.map_eq_append_iff.1 hkinds
  obtain ⟨token, cs, rfl, htoken, hcs⟩ := List.map_eq_cons_iff.1 hhead
  obtain ⟨guard, hguard⟩ := exists_condition (hcs ▸ hc)
  obtain ⟨body, hbody⟩ := hb hbs
  exact ⟨token, cs ++ bs, guard, body, rfl, htoken, List.rel_append hguard hbody⟩

/-- Tokens whose kinds are derived spell something. -/
theorem speltAs_of_derives
    {category : Sentence.Category}
    {w : List Kind}
    (h : Sentence.Derives category w)
    {tokens : List Token}
    (hkinds : tokens.map Token.kind = w) :
    SpeltAs category tokens := by
  induction h generalizing tokens with
  | declaration hv =>
      obtain ⟨front, ends, rfl, hfront, hends⟩ := List.map_eq_append_iff.1 hkinds
      obtain ⟨heads, vs, rfl, hheads, hvs⟩ := List.map_eq_append_iff.1 hfront
      obtain ⟨comet, more, rfl, hcomet, hmore⟩ := List.map_eq_cons_iff.1 hheads
      obtain ⟨target, signs, rfl, htarget, hsigns⟩ := List.map_eq_cons_iff.1 hmore
      obtain ⟨n, hn⟩ := exists_name htarget
      obtain ⟨v, hspelt⟩ := exists_value (hvs ▸ hv)
      refine ⟨.declaration n v, ?_⟩
      rw [Statement.pieces]
      have hfirst := List.Forall₂.cons (Piece.matches_fixed hcomet)
        (List.Forall₂.cons hn (spelt_single hsigns))
      exact List.rel_append (List.rel_append hfirst hspelt) (spelt_single hends)
  | assignment hv =>
      obtain ⟨front, ends, rfl, hfront, hends⟩ := List.map_eq_append_iff.1 hkinds
      obtain ⟨heads, vs, rfl, hheads, hvs⟩ := List.map_eq_append_iff.1 hfront
      obtain ⟨target, signs, rfl, htarget, hsigns⟩ := List.map_eq_cons_iff.1 hheads
      obtain ⟨n, hn⟩ := exists_name htarget
      obtain ⟨v, hspelt⟩ := exists_value (hvs ▸ hv)
      refine ⟨.assignment n v, ?_⟩
      rw [Statement.pieces]
      have hfirst := List.Forall₂.cons hn (spelt_single hsigns)
      exact List.rel_append (List.rel_append hfirst hspelt) (spelt_single hends)
  | transmission ha =>
      obtain ⟨word, rest, rfl, hword, hrest⟩ := List.map_eq_cons_iff.1 hkinds
      obtain ⟨a, hspelt⟩ := exists_argument (hrest ▸ ha)
      refine ⟨.transmission a, ?_⟩
      rw [Statement.pieces]
      exact .cons (Piece.matches_fixed hword) hspelt
  | reception ha =>
      obtain ⟨heads, rest, rfl, hheads, hrest⟩ := List.map_eq_append_iff.1 hkinds
      obtain ⟨target, more, rfl, htarget, hmore⟩ := List.map_eq_cons_iff.1 hheads
      obtain ⟨sign, words, rfl, hsign, hwords⟩ := List.map_eq_cons_iff.1 hmore
      obtain ⟨n, hn⟩ := exists_name htarget
      obtain ⟨a, hspelt⟩ := exists_argument (hrest ▸ ha)
      refine ⟨.reception n a, ?_⟩
      rw [Statement.pieces]
      have hfirst := List.Forall₂.cons hn
        (List.Forall₂.cons (Piece.matches_fixed hsign) (spelt_single hwords))
      exact List.rel_append hfirst hspelt
  | orbit hc _ ihb =>
      obtain ⟨front, ends, rfl, hfront, hends⟩ := List.map_eq_append_iff.1 hkinds
      obtain ⟨word, rest, guard, body, rfl, hword, hrest⟩ := exists_guarded hc ihb hfront
      refine ⟨.orbit guard body, ?_⟩
      rw [Statement.pieces]
      have hfirst := List.Forall₂.cons (Piece.matches_fixed hword) hrest
      exact List.rel_append hfirst (spelt_single hends)
  | orbitPropel hc _ _ ihb ihb' =>
      obtain ⟨front, ends, rfl, hfront, hends⟩ := List.map_eq_append_iff.1 hkinds
      obtain ⟨head, propels, rfl, hhead, hpropels⟩ := List.map_eq_append_iff.1 hfront
      obtain ⟨word, rest, guard, body, rfl, hword, hrest⟩ := exists_guarded hc ihb hhead
      obtain ⟨propel, bs, rfl, hpropel, hbs⟩ := List.map_eq_cons_iff.1 hpropels
      obtain ⟨otherwise, hotherwise⟩ := ihb' hbs
      refine ⟨.orbitPropel guard body otherwise, ?_⟩
      rw [Statement.pieces]
      have hfirst := List.Forall₂.cons (Piece.matches_fixed hword) hrest
      have hsecond := List.Forall₂.cons (Piece.matches_fixed hpropel) hotherwise
      exact List.rel_append (List.rel_append hfirst hsecond) (spelt_single hends)
  | orbitNavigatePropel hc _ hc' _ _ ihb ihb' ihb'' =>
      obtain ⟨front, ends, rfl, hfront, hends⟩ := List.map_eq_append_iff.1 hkinds
      obtain ⟨front, propels, rfl, hfront, hpropels⟩ := List.map_eq_append_iff.1 hfront
      obtain ⟨head, navigates, rfl, hhead, hnavigates⟩ := List.map_eq_append_iff.1 hfront
      obtain ⟨word, rest, guard, body, rfl, hword, hrest⟩ := exists_guarded hc ihb hhead
      obtain ⟨navigate, rest', second, alternative, rfl, hnavigate, hrest'⟩ :=
        exists_guarded hc' ihb' hnavigates
      obtain ⟨propel, bs, rfl, hpropel, hbs⟩ := List.map_eq_cons_iff.1 hpropels
      obtain ⟨otherwise, hotherwise⟩ := ihb'' hbs
      refine ⟨.orbitNavigatePropel guard body second alternative otherwise, ?_⟩
      rw [Statement.pieces]
      have hfirst := List.Forall₂.cons (Piece.matches_fixed hword) hrest
      have hsecond := List.Forall₂.cons (Piece.matches_fixed hnavigate) hrest'
      have hthird := List.Forall₂.cons (Piece.matches_fixed hpropel) hotherwise
      exact List.rel_append (List.rel_append (List.rel_append hfirst hsecond) hthird)
        (spelt_single hends)
  | whirl hc _ ihb =>
      obtain ⟨front, ends, rfl, hfront, hends⟩ := List.map_eq_append_iff.1 hkinds
      obtain ⟨word, rest, guard, body, rfl, hword, hrest⟩ := exists_guarded hc ihb hfront
      refine ⟨.whirl word.position guard body, ?_⟩
      rw [Statement.pieces]
      have hfirst := List.Forall₂.cons (Piece.matches_at hword) hrest
      exact List.rel_append hfirst (spelt_single hends)
  | launch _ hc ihb =>
      obtain ⟨front, ends, rfl, hfront, hends⟩ := List.map_eq_append_iff.1 hkinds
      obtain ⟨head, whirls, rfl, hhead, hwhirls⟩ := List.map_eq_append_iff.1 hfront
      obtain ⟨word, bs, rfl, hword, hbs⟩ := List.map_eq_cons_iff.1 hhead
      obtain ⟨whirl, cs, rfl, hwhirl, hcs⟩ := List.map_eq_cons_iff.1 hwhirls
      obtain ⟨guard, hguard⟩ := exists_condition (hcs ▸ hc)
      obtain ⟨body, hbody⟩ := ihb hbs
      refine ⟨.launch word.position body guard, ?_⟩
      rw [Statement.pieces]
      have hfirst := List.Forall₂.cons (Piece.matches_at hword) hbody
      have hthird := List.Forall₂.cons (Piece.matches_fixed hwhirl) hguard
      exact List.rel_append (List.rel_append hfirst hthird) (spelt_single hends)
  | block _ ih =>
      obtain ⟨front, ends, rfl, hfront, hends⟩ := List.map_eq_append_iff.1 hkinds
      obtain ⟨opening, inner, rfl, hopening, hinner⟩ := List.map_eq_cons_iff.1 hfront
      obtain ⟨items, hlength, hitems⟩ := ih hinner
      cases items with
      | nil =>
          simp at hlength
      | cons item items =>
          obtain ⟨body, hbody⟩ := exists_body item items
          refine ⟨body, .cons (Piece.matches_fixed hopening) ?_⟩
          rw [hbody]
          exact List.rel_append hitems (spelt_single hends)
  | statement _ ih =>
      obtain ⟨s, hs⟩ := ih hkinds
      exact ⟨.statement s, by simpa [Item.pieces] using hs⟩
  | arithmetic hw =>
      obtain ⟨a, ha⟩ := exists_arithmetic (hkinds ▸ hw)
      exact ⟨.arithmetic a, by simpa [Item.pieces] using ha⟩
  | none =>
      obtain rfl := List.map_eq_nil_iff.1 hkinds
      exact ⟨[], rfl, .nil⟩
  | more _ _ ihu ihv =>
      obtain ⟨as, bs, rfl, has, hbs⟩ := List.map_eq_append_iff.1 hkinds
      obtain ⟨item, hitem⟩ := ihu has
      obtain ⟨items, hlength, hitems⟩ := ihv hbs
      exact ⟨item :: items, by simp [hlength], List.rel_append hitem hitems⟩

/-- Items that end with a statement spell a program of so many items. -/
theorem exists_items
    {count : Nat}
    {tokens : List Token}
    (h : Sentence.Items count (tokens.map Token.kind)) :
    ∃ before last,
      count = before.length + 1 ∧ (Program.items before last).Spells tokens := by
  obtain ⟨n, u, v, rfl, hu, hv, hkinds⟩ := h
  obtain ⟨as, bs, rfl, has, hbs⟩ := List.map_eq_append_iff.1 hkinds
  obtain ⟨items, rfl, hitems⟩ := speltAs_of_derives hu has
  obtain ⟨last, hlast⟩ := speltAs_of_derives hv hbs
  exact ⟨items, last, rfl, List.rel_append hitems hlast⟩

/-- Every sentence spells an abstract program. -/
theorem exists_program
    {tokens : List Token}
    (h : Sentence.Program (tokens.map Token.kind)) :
    ∃ program : Program, program.Spells tokens := by
  rcases h with hempty | ⟨count, hitems⟩ | harithmetic
  · obtain rfl := List.map_eq_nil_iff.1 hempty
    exact ⟨.empty, .nil⟩
  · obtain ⟨before, last, _, hspells⟩ := exists_items hitems
    exact ⟨.items before last, hspells⟩
  · obtain ⟨a, hspelt⟩ := exists_arithmetic harithmetic
    exact ⟨.arithmetic a, hspelt⟩

end Abstract
end CometLang
