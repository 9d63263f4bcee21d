import CometLang.Proofs.Mirror
import CometLang.Proofs.Sentence

/-!
# Layouts of arithmetic trees

The grammar gathers products into terms and sums of terms into arithmetic
expressions. A tree of arithmetic is laid out as a first operand and pairs of an
operator and an operand behind it, in the order of its leaves: what the tree
adds to this sequence is only where its terms begin and end.

Every factor, term and arithmetic expression in a tree that a parse leaves
behind has a layout, because it was formed by a production.
-/

namespace CometLang
namespace Evaluation

/-! ## Kinds of operands and operators -/

theorem isMultiplicative_of_isAdditive
    {kind : Kind}
    (h : kind.isAdditive = true) :
    kind.isMultiplicative = false := by
  cases kind <;> first | rfl | cases h

theorem isOperand_of_isArithmetic
    {kind : Kind}
    (h : kind.isArithmetic = true) :
    kind.isOperand = false := by
  cases kind <;> first | rfl | cases h

theorem isArithmetic_of_isOperand
    {kind : Kind}
    (h : kind.isOperand = true) :
    kind.isArithmetic = false := by
  cases kind <;> first | rfl | cases h

/-! ## Layouts -/

/-- An operator and the operand behind it. -/
abbrev Pair :=
  Token × Token

/-- Pairs one after the other, as tokens. -/
def flatten (pairs : List Pair) : List Token :=
  pairs.flatMap fun pair => [pair.1, pair.2]

@[simp] theorem flatten_nil :
    flatten [] = [] := by
  rfl

@[simp] theorem flatten_cons
    (pair : Pair)
    (pairs : List Pair) :
    flatten (pair :: pairs) = pair.1 :: pair.2 :: flatten pairs := by
  rfl

@[simp] theorem flatten_append
    (as bs : List Pair) :
    flatten (as ++ bs) = flatten as ++ flatten bs := by
  simp [flatten]

theorem mem_flatten_of_mem
    {pair : Pair}
    {pairs : List Pair}
    (h : pair ∈ pairs) :
    pair.2 ∈ flatten pairs :=
  List.mem_flatMap.2 ⟨pair, h, by simp⟩

/--
Trees of arithmetic as the productions build them, each with its first operand
and the pairs behind it.
-/
inductive Layout : Nonterminal → Tree → Token → List Pair → Prop
  | factor
      {form : Nonterminal}
      {operand : Token}
      (hoperand : operand.kind.isOperand = true) :
      Layout .factor
        (.node (.nonterminal .factor) [.node (.nonterminal form) [.leaf operand]]) operand []
  | term
      {factor : Tree}
      {operand : Token}
      (hfactor : Layout .factor factor operand []) :
      Layout .term (.node (.nonterminal .term) [factor]) operand []
  | product
      {term factor : Tree}
      {first operator operand : Token}
      {pairs : List Pair}
      (hterm : Layout .term term first pairs)
      (hoperator : operator.kind.isMultiplicative = true)
      (hfactor : Layout .factor factor operand []) :
      Layout .term (.node (.nonterminal .term) [term, .leaf operator, factor]) first
        (pairs ++ [(operator, operand)])
  | single
      {term : Tree}
      {first : Token}
      {pairs : List Pair}
      (hterm : Layout .term term first pairs) :
      Layout .arithExp (.node (.nonterminal .arithExp) [term]) first pairs
  | sum
      {sum term : Tree}
      {first operator operand : Token}
      {pairs more : List Pair}
      (hsum : Layout .arithExp sum first pairs)
      (hoperator : operator.kind.isAdditive = true)
      (hterm : Layout .term term operand more) :
      Layout .arithExp (.node (.nonterminal .arithExp) [sum, .leaf operator, term]) first
        (pairs ++ (operator, operand) :: more)

namespace Layout

variable {form : Nonterminal} {t : Tree} {first : Token} {pairs : List Pair}

/-- The leaves are the operands and operators in their order. -/
theorem leaves_eq
    (h : Layout form t first pairs) :
    t.leaves = first :: flatten pairs := by
  induction h with
  | factor _ =>
      simp [Tree.leaves, Tree.leavesOfAll, Tree.leaf, Label.token?]
  | term _ ih =>
      simpa [Tree.leaves, Tree.leavesOfAll, Label.token?] using ih
  | product _ _ _ ihterm ihfactor =>
      simp [Tree.leaves, Tree.leavesOfAll, Tree.leaf, Label.token?, ihterm, ihfactor]
  | single _ ih =>
      simpa [Tree.leaves, Tree.leavesOfAll, Label.token?] using ih
  | sum _ _ _ ihsum ihterm =>
      simp [Tree.leaves, Tree.leavesOfAll, Tree.leaf, Label.token?, ihsum, ihterm]

/-- A layout starts with an operand. -/
theorem isOperand_first
    (h : Layout form t first pairs) :
    first.kind.isOperand = true := by
  induction h with
  | factor hoperand =>
      exact hoperand
  | term _ ih =>
      exact ih
  | product _ _ _ ih _ =>
      exact ih
  | single _ ih =>
      exact ih
  | sum _ _ _ ih _ =>
      exact ih

/-- A factor is a single operand. -/
theorem pairs_of_factor
    (h : Layout .factor t first pairs) :
    pairs = [] := by
  cases h
  rfl

/-- Within a term all operators multiply or divide. -/
theorem isMultiplicative_of_term
    (h : Layout .term t first pairs) :
    ∀ pair ∈ pairs, pair.1.kind.isMultiplicative = true := by
  generalize hform : Nonterminal.term = form at h
  induction h with
  | factor _ =>
      cases hform
  | term _ _ =>
      simp
  | product _ hoperator _ ih _ =>
      intro pair hpair
      rcases List.mem_append.1 hpair with hpair | hpair
      · exact ih rfl pair hpair
      · obtain rfl := List.mem_singleton.1 hpair
        exact hoperator
  | single _ _ =>
      cases hform
  | sum _ _ _ _ _ =>
      cases hform

/-- Behind the first operand, operators and operands take turns. -/
theorem kinds_of_pairs
    (h : Layout form t first pairs) :
    ∀ pair ∈ pairs, pair.1.kind.isArithmetic = true ∧ pair.2.kind.isOperand = true := by
  induction h with
  | factor _ =>
      simp
  | term _ _ =>
      simp
  | product _ hoperator hfactor ih _ =>
      intro pair hpair
      rcases List.mem_append.1 hpair with hpair | hpair
      · exact ih pair hpair
      · obtain rfl := List.mem_singleton.1 hpair
        exact ⟨by simp [Kind.isArithmetic, hoperator], hfactor.isOperand_first⟩
  | single _ ih =>
      exact ih
  | sum _ hoperator hterm ihsum ihterm =>
      intro pair hpair
      rcases List.mem_append.1 hpair with hpair | hpair
      · exact ihsum pair hpair
      · rcases List.mem_cons.1 hpair with rfl | hpair
        · exact ⟨by simp [Kind.isArithmetic, hoperator], hterm.isOperand_first⟩
        · exact ihterm pair hpair

end Layout

/-! ## Every derived tree of arithmetic has a layout -/

/-- The symbol at the top of the tree may stand at the place. -/
def Holds
    (place : Expect)
    (t : Tree) : Prop :=
  ∃ s, place.admits s = true ∧ t.label = s.label

/-- The children of a phrase stand at the places of its production. -/
theorem holds_of_spans
    {places : List Expect}
    {symbols : List Symbol}
    {children : List Tree}
    (hspans : (Rhs.sequence places).Spans symbols)
    (hlabels : children.map Tree.label = symbols.map Symbol.label) :
    List.Forall₂ Holds places children := by
  rw [Rhs.Spans] at hspans
  induction hspans generalizing children with
  | nil =>
      obtain rfl := List.map_eq_nil_iff.1 hlabels
      exact .nil
  | cons hadmits _ ih =>
      obtain ⟨child, others, rfl, hlabel, hothers⟩ := List.map_eq_cons_iff.1 hlabels
      exact .cons ⟨_, hadmits, hlabel⟩ (ih hothers)

theorem Holds.form
    {form : Nonterminal}
    {t : Tree}
    (h : Holds (.form form) t) :
    t.form? = some form := by
  obtain ⟨s, hadmits, hlabel⟩ := h
  obtain rfl := Symbol.isForm_iff.1 hadmits
  rw [Tree.form?, hlabel]
  rfl

/-- A derived tree at a place for a token is a token that may stand there. -/
theorem Holds.token
    {place : Expect}
    {p : Kind → Bool}
    {t : Tree}
    (h : Holds place t)
    (hplace : ∀ s, place.admits s = s.kind?.any p)
    (hderived : t.Derived) :
    ∃ token : Token, t = .leaf token ∧ p token.kind = true := by
  obtain ⟨s, hadmits, hlabel⟩ := h
  rw [hplace] at hadmits
  cases s with
  | nonterminal form =>
      simp [Symbol.kind?] at hadmits
  | terminal token =>
      refine ⟨token, ?_, by simpa [Symbol.kind?] using hadmits⟩
      cases hderived with
      | token other =>
          cases hlabel
          rfl
      | phrase _ _ _ =>
          cases hlabel

theorem exists_one
    {place : Expect}
    {children : List Tree}
    (h : List.Forall₂ Holds [place] children) :
    ∃ child, children = [child] ∧ Holds place child := by
  obtain ⟨child, rest, hchild, hrest, rfl⟩ := List.forall₂_cons_left_iff.1 h
  obtain rfl := List.forall₂_nil_left_iff.1 hrest
  exact ⟨child, rfl, hchild⟩

theorem exists_three
    {a b c : Expect}
    {children : List Tree}
    (h : List.Forall₂ Holds [a, b, c] children) :
    ∃ left middle right,
      children = [left, middle, right] ∧ Holds a left ∧ Holds b middle ∧ Holds c right := by
  obtain ⟨left, others, hleft, hothers, rfl⟩ := List.forall₂_cons_left_iff.1 h
  obtain ⟨middle, rest, hmiddle, hrest, rfl⟩ := List.forall₂_cons_left_iff.1 hothers
  obtain ⟨right, rfl, hright⟩ := exists_one hrest
  exact ⟨left, middle, right, rfl, hleft, hmiddle, hright⟩

/-- An operand is a phrase over a single token. -/
theorem Holds.operand
    {t : Tree}
    (h : Holds .operand t)
    (hderived : t.Derived) :
    ∃ (form : Nonterminal) (operand : Token),
      t = .node (.nonterminal form) [.leaf operand] ∧ operand.kind.isOperand = true := by
  obtain ⟨s, hadmits, hlabel⟩ := h
  cases hderived with
  | token token =>
      cases s with
      | terminal other =>
          simp [Expect.admits, Symbol.isForm, Symbol.form?] at hadmits
      | nonterminal form =>
          cases hlabel
  | @phrase p symbols children hspans hlabels hchildren =>
      obtain rfl : s = .nonterminal p.lhs := by
        cases s with
        | terminal other =>
            cases hlabel
        | nonterminal form =>
            cases hlabel
            rfl
      -- Only two productions form operands, and both are over one token.
      have hsingle :
          ∃ kind, p.rhs = .sequence [.kind kind] ∧ kind.isOperand = true := by
        revert hadmits
        cases p <;> first | exact fun _ => ⟨_, rfl, rfl⟩ | exact fun h => absurd h (by decide)
      obtain ⟨kind, hrhs, hkind⟩ := hsingle
      rw [hrhs] at hspans
      obtain ⟨child, rfl, hchild⟩ := exists_one (holds_of_spans hspans hlabels)
      obtain ⟨operand, rfl, hoperand⟩ :=
        hchild.token (p := (· == kind)) (fun s => by cases s <;> rfl) (hchildren child (by simp))
      obtain rfl := eq_of_beq hoperand
      exact ⟨p.lhs, operand, rfl, hkind⟩

/-- Forms of the nodes of an arithmetic tree. -/
def isLaidOut : Nonterminal → Bool
  | .factor | .term | .arithExp => true
  | _ => false

/-- Every derived factor, term or arithmetic expression has a layout. -/
theorem exists_layout
    {t : Tree}
    (h : t.Derived)
    {form : Nonterminal}
    (hform : t.form? = some form)
    (hlaid : isLaidOut form = true) :
    ∃ first pairs, Layout form t first pairs := by
  induction h generalizing form with
  | token token =>
      cases hform
  | @phrase p symbols children hspans hlabels hchildren ih =>
      obtain rfl : p.lhs = form := by
        simpa [Tree.form?, Tree.label, Label.form?] using hform
      cases p with
      | factor =>
          obtain ⟨child, rfl, hchild⟩ := exists_one (holds_of_spans hspans hlabels)
          obtain ⟨form, operand, rfl, hkind⟩ := hchild.operand (hchildren child (by simp))
          exact ⟨operand, [], .factor hkind⟩
      | term =>
          obtain ⟨child, rfl, hchild⟩ := exists_one (holds_of_spans hspans hlabels)
          obtain ⟨operand, pairs, hfactor⟩ := ih child (by simp) hchild.form rfl
          obtain rfl := hfactor.pairs_of_factor
          exact ⟨operand, [], .term hfactor⟩
      | arithmeticExpression =>
          obtain ⟨child, rfl, hchild⟩ := exists_one (holds_of_spans hspans hlabels)
          obtain ⟨first, pairs, hterm⟩ := ih child (by simp) hchild.form rfl
          exact ⟨first, pairs, .single hterm⟩
      | termProduct =>
          obtain ⟨term, sign, factor, rfl, hterm, hsign, hfactor⟩ :=
            exists_three (holds_of_spans hspans hlabels)
          obtain ⟨operator, rfl, hoperator⟩ :=
            hsign.token (fun _ => rfl) (hchildren sign (by simp))
          obtain ⟨first, pairs, hfirst⟩ := ih term (by simp) hterm.form rfl
          obtain ⟨operand, more, hoperand⟩ := ih factor (by simp) hfactor.form rfl
          obtain rfl := hoperand.pairs_of_factor
          exact ⟨first, _, .product hfirst hoperator hoperand⟩
      | arithmeticSum =>
          obtain ⟨sum, sign, term, rfl, hsum, hsign, hterm⟩ :=
            exists_three (holds_of_spans hspans hlabels)
          obtain ⟨operator, rfl, hoperator⟩ :=
            hsign.token (fun _ => rfl) (hchildren sign (by simp))
          obtain ⟨first, pairs, hfirst⟩ := ih sum (by simp) hsum.form rfl
          obtain ⟨operand, more, hoperand⟩ := ih term (by simp) hterm.form rfl
          exact ⟨first, _, .sum hfirst hoperator hoperand⟩
      | _ =>
          cases hlaid

end Evaluation

/-! ## Trees of parses -/

namespace Tree

/-- The tree is the other one or a node somewhere below. -/
inductive OccursIn : Tree → Tree → Prop
  | here
      (t : Tree) :
      OccursIn t t
  | inside
      {t child : Tree}
      {label : Label}
      {children : List Tree}
      (hchild : child ∈ children)
      (h : OccursIn t child) :
      OccursIn t (.node label children)

theorem OccursIn.derived
    {t root : Tree}
    (h : t.OccursIn root)
    (hroot : root.Derived) :
    t.Derived := by
  induction h with
  | here =>
      exact hroot
  | inside hchild _ ih =>
      cases hroot with
      | token token =>
          cases hchild
      | phrase _ _ hchildren =>
          exact ih (hchildren _ hchild)

end Tree

namespace Derivation

namespace State.Bears

variable {s : State} {tokens : List Token} {limbs : List Limb}

theorem reduce
    (h : s.Bears tokens limbs)
    (mode : Mode) :
    ∃ last, (s.reduce mode).1.Bears tokens last ∧ (s.reduce mode).1.pending = s.pending := by
  obtain ⟨last, hsettles⟩ := Limb.exists_settles mode limbs
  obtain ⟨hcarries, hpending⟩ := h.carries.reduce hsettles
  exact ⟨last, h.settle hsettles hcarries hpending, hpending⟩

theorem feed
    {rest : List Token}
    (h : s.Bears tokens limbs)
    (hpending : s.pending = rest) :
    ∃ last, (s.feed rest).Bears tokens last := by
  induction rest generalizing s limbs with
  | nil =>
      exact ⟨limbs, h⟩
  | cons token rest ih =>
      obtain ⟨next, hnext, hpending'⟩ := (h.shift hpending).reduce .primary
      exact ih hnext hpending'

theorem close
    (h : s.Bears tokens limbs)
    (v : Verdict) :
    (s.close v).Bears tokens limbs :=
  ⟨h.carries.close v, h.leaves, h.derived⟩

end State.Bears

/-- What a parse leaves behind is derived from its tokens. -/
theorem exists_bears_parse
    (tokens : List Token) :
    ∃ limbs, (parse tokens).state.Bears tokens limbs := by
  obtain ⟨fed, hfed⟩ := (State.Bears.start tokens).feed rfl
  obtain ⟨settled, hsettled, -⟩ := hfed.reduce .primary
  obtain ⟨last, hlast, -⟩ := hsettled.reduce .fallback
  rw [parse]
  split
  · exact ⟨settled, hsettled.close .accept⟩
  · dsimp only
    split
    · exact ⟨last, hlast.close .accept⟩
    · exact ⟨settled, hsettled.close .reject⟩

/-- Every phrase in the tree of a parse was formed by a production. -/
theorem derived_of_occursIn_parse
    {tokens : List Token}
    {t : Tree}
    {form : Nonterminal}
    (h : t.OccursIn (parse tokens).tree)
    (hform : t.form? = some form) :
    t.Derived := by
  obtain ⟨limbs, hbears⟩ := exists_bears_parse tokens
  have htree : (parse tokens).tree = .node .program (Limb.trees limbs) := hbears.carries.tree
  rw [htree] at h
  cases h with
  | here =>
      cases hform
  | inside hchild hoccurs =>
      exact hoccurs.derived (hbears.derived _ hchild)

end Derivation
end CometLang
