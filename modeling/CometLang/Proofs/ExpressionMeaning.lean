import CometLang.Evaluation.Arithmetic
import CometLang.Evaluation.Condition
import CometLang.Proofs.Limb
import CometLang.Proofs.Meaning
import CometLang.Proofs.Shape

/-!
# The meaning of expressions

A tree that shows an expression is evaluated to what the expression means, the
faults included. Arithmetic is evaluated in two passes, products first, and
means the same as in one pass. A chain collects its truths before it joins them.
-/

namespace CometLang

open Abstract

namespace Evaluation

/-! ## Operands -/

@[simp] theorem leafToken_node
    (form : Nonterminal)
    (token : Token) :
    leafToken (.node (.nonterminal form) [.leaf token]) = .ok token := by
  simp [leafToken, Tree.leaves, Tree.leavesOfAll, Tree.leaf, Label.token?]

/-- A name is resolved to its value. -/
theorem resolve_eq
    {n : Name}
    {token : Token}
    (h : n.piece.Matches token)
    (scopes : Scopes) :
    scopes.resolve token.value token.position = n.value scopes.frames := by
  rw [h.value _ rfl, h.position _ rfl]
  rfl

theorem operandText_eq
    {o : Operand}
    {token : Token}
    (h : o.piece.Matches token)
    (scopes : Scopes) :
    operandText token scopes = o.text scopes.frames := by
  cases o with
  | name n =>
      have hkind : token.kind = .identifier := h.kind
      rw [operandText, hkind]
      exact resolve_eq h scopes
  | literal text position =>
      have hkind : token.kind = .cometLiteral := h.kind
      have hvalue : token.value = text := h.value _ rfl
      simp [operandText, hkind, hvalue, Operand.text]

theorem position_eq
    {o : Operand}
    {token : Token}
    (h : o.piece.Matches token) :
    token.position = o.position := by
  cases o with
  | name n =>
      exact h.position _ rfl
  | literal text position =>
      exact h.position _ rfl

theorem operandValue_eq
    {o : Operand}
    {token : Token}
    (h : o.piece.Matches token)
    (scopes : Scopes) :
    operandValue token scopes = o.number Numeral.wholeOf? scopes.frames := by
  rw [operandValue, Operand.number, operandText_eq h, position_eq h]
  congr 1
  funext text
  rw [wholeOf]
  cases Numeral.wholeOf? text <;> rfl

/-! ## Arithmetic -/

/-- The operator and the value stand for the same operation. -/
def Agrees
    (abstract : Operator × Int64)
    (concrete : Operation) : Prop :=
  abstract.1.piece.Matches concrete.1 ∧ abstract.2 = concrete.2

theorem isArithmetic_of_matches
    {o : Operator}
    {token : Token}
    (h : o.piece.Matches token) :
    token.kind.isArithmetic = true := by
  rw [h.kind]
  cases o <;> rfl

theorem values_cons
    (frames : List Frame)
    (operation : Abstract.Operation)
    (operations : List Abstract.Operation) :
    Operation.values frames (operation :: operations) = do
      let right ← operation.operand.number Numeral.wholeOf? frames
      let rest ← Operation.values frames operations
      return (operation.operator, right) :: rest := by
  simp [Operation.values, List.mapM_cons]

/-- Operands and operators are read, or the first fault is met. -/
theorem readOperations_eq
    {operations : List Abstract.Operation}
    {tokens : List Token}
    (h : Spelt (operations.flatMap Operation.pieces) tokens)
    (scopes : Scopes) :
    match Operation.values scopes.frames operations with
    | .error fault => readOperations scopes tokens = .error fault
    | .ok abstract =>
        ∃ concrete,
          readOperations scopes tokens = .ok concrete ∧
            List.Forall₂ Agrees abstract concrete := by
  induction operations generalizing tokens with
  | nil =>
      obtain rfl := List.forall₂_nil_left_iff.1 h
      exact ⟨[], rfl, .nil⟩
  | cons operation operations ih =>
      obtain ⟨sign, more, rfl, hsign, hmore⟩ := spelt_cons h
      obtain ⟨operand, rest, rfl, hoperand, hrest⟩ := spelt_cons hmore
      have hreads := ih hrest
      rw [values_cons, readOperations, if_pos (isArithmetic_of_matches hsign),
        operandValue_eq hoperand]
      cases operation.operand.number Numeral.wholeOf? scopes.frames with
      | error fault =>
          rfl
      | ok right =>
          cases hvalues : Operation.values scopes.frames operations with
          | error fault =>
              rw [hvalues] at hreads
              simp [hreads, bind, Except.bind]
          | ok abstract =>
              rw [hvalues] at hreads
              obtain ⟨concrete, hread, hagrees⟩ := hreads
              exact ⟨(sign, right) :: concrete, by simp [hread, bind, Except.bind, pure,
                Except.pure], .cons ⟨hsign, rfl⟩ hagrees⟩

theorem formTerms_additive
    {token : Token}
    (h : token.kind.isMultiplicative = false)
    (left right : Int64)
    (rest : List Operation) :
    (formTerms left ((token, right) :: rest)).2
      = (formTerms right rest).2.map fun terms => (left, (token, terms.1) :: terms.2) := by
  simp [formTerms, h]

theorem formTerms_multiplicative
    {token : Token}
    (h : token.kind.isMultiplicative = true)
    (left right : Int64)
    (rest : List Operation) :
    (formTerms left ((token, right) :: rest)).2
      = (multiply token left right).bind fun result => (formTerms result rest).2 := by
  rw [formTerms, if_pos h]
  cases multiply token left right <;> rfl

/-- Forming the terms first and adding them up then is the same as one pass. -/
theorem total_eq
    {abstract : List (Operator × Int64)}
    {concrete : List Operation}
    (h : List.Forall₂ Agrees abstract concrete)
    (before : Int64 → Int64)
    (left : Int64) :
    Arithmetic.total before left abstract
      = (formTerms left concrete).2.map fun terms =>
          (addTerms (before terms.1) terms.2).2 := by
  induction h generalizing before left with
  | nil =>
      rfl
  | @cons a c abstract concrete hagrees _ ih =>
      obtain ⟨operator, right⟩ := a
      obtain ⟨token, right'⟩ := c
      obtain ⟨hmatches, rfl⟩ := hagrees
      have hkind : token.kind = operator.piece.kind := hmatches.kind
      cases operator with
      | plus =>
          have hplus : token.kind = .plus := hkind
          rw [Arithmetic.total, ih, formTerms_additive (by rw [hplus]; rfl)]
          cases (formTerms right concrete).2 with
          | error fault =>
              rfl
          | ok terms =>
              simp [Except.map, addTerms, add, hplus]
      | minus =>
          have hminus : token.kind = .minus := hkind
          rw [Arithmetic.total, ih, formTerms_additive (by rw [hminus]; rfl)]
          cases (formTerms right concrete).2 with
          | error fault =>
              rfl
          | ok terms =>
              simp [Except.map, addTerms, add, hminus]
      | times =>
          have htimes : token.kind = .star := hkind
          rw [Arithmetic.total, ih, formTerms_multiplicative (by rw [htimes]; rfl), multiply,
            if_pos htimes]
          rfl
      | divide position =>
          have hdivide : token.kind = .slash := hkind
          have hposition : token.position = position := hmatches.position _ rfl
          have hmultiply :
              multiply token left right
                = if right = 0 then .error ⟨.divisionByZero, position⟩
                  else .ok (left / right) := by
            simp [multiply, hdivide, hposition]
          rw [Arithmetic.total, formTerms_multiplicative (by rw [hdivide]; rfl), hmultiply]
          by_cases hzero : right = 0
          · rw [if_pos hzero, if_pos hzero]
            rfl
          · rw [if_neg hzero, if_neg hzero, ih]
            rfl

/-- A tree that shows an arithmetic expression has its value. -/
theorem compute_eq
    {a : Abstract.Arithmetic}
    {t : Tree}
    (h : a.Shows t)
    (scopes : Scopes) :
    (compute t scopes).2 = a.value scopes.frames := by
  obtain ⟨children, -, hspelt⟩ := h
  obtain ⟨first, rest, hleaves, hfirst, hrest⟩ := spelt_cons hspelt
  have hreads := readOperations_eq hrest scopes
  rw [compute, hleaves, computeTokens, readOperands, operandValue_eq hfirst,
    Abstract.Arithmetic.value]
  cases a.first.number Numeral.wholeOf? scopes.frames with
  | error fault =>
      rfl
  | ok left =>
      cases hvalues : Operation.values scopes.frames (a.second :: a.more) with
      | error fault =>
          rw [hvalues] at hreads
          simp [hreads, bind, Except.bind]
      | ok abstract =>
          rw [hvalues] at hreads
          obtain ⟨concrete, hread, hagrees⟩ := hreads
          have htotal := total_eq hagrees id left
          simp only [hread, bind, Except.bind, pure, Except.pure, htotal]
          cases hterms : formTerms left concrete with
          | mk steps terms =>
              cases terms <;> rfl

/-! ## Conditions -/

theorem comparand_eq
    {o : Operand}
    {t : Tree}
    (h : o.Shows t)
    (scopes : Scopes) :
    comparand t scopes = o.number Numeral.Double.ofText? scopes.frames := by
  obtain ⟨token, htoken, rfl⟩ := h
  rw [comparand, leafToken_node, Operand.number, ← operandText_eq htoken, ← position_eq htoken]
  change operandText token scopes >>= _ = operandText token scopes >>= _
  congr 1
  funext text
  cases Numeral.Double.ofText? text <;> rfl

theorem compareBy?_eq
    (c : Comparator)
    (left right : Numeral.Double) :
    compareBy? c.kind left right = some (c.holds (left.compare? right)) := by
  have horder (order : Option Ordering) :
      (order == some .eq) = decide (order = some .eq) ∧
        (order == some .lt) = decide (order = some .lt) ∧
        (order == some .gt) = decide (order = some .gt) := by
    rcases order with _ | order
    · decide
    · cases order <;> decide
  obtain ⟨heq, hlt, hgt⟩ := horder (left.compare? right)
  cases c <;>
    simp [compareBy?, Comparator.kind, Comparator.holds, bne, heq, hlt, hgt]

/-- A tree that shows an operand is one of the children that can be compared. -/
theorem isForm_of_shows
    {o : Operand}
    {t : Tree}
    (h : o.Shows t) :
    (t.isForm .identifier || t.isForm .cometLiteral) = true ∧
      t.isForm .relationalOp = false := by
  obtain ⟨token, -, rfl⟩ := h
  cases o <;> exact ⟨rfl, rfl⟩

theorem relational_eq
    {c : Comparison}
    {t : Tree}
    (h : c.Shows t)
    (scopes : Scopes) :
    relational t scopes = c.truth scopes.frames := by
  obtain ⟨left, sign, right, rfl, hleft, hsign, hright⟩ := h
  let operator := Tree.node (.nonterminal .relationalOp) [.leaf sign]
  let t := Tree.node (.nonterminal .relationalExp) [left, operator, right]
  obtain ⟨hleftForm, hleftOther⟩ := isForm_of_shows hleft
  obtain ⟨hrightForm, -⟩ := isForm_of_shows hright
  have hoperator : (operator.isForm .identifier || operator.isForm .cometLiteral) = false := rfl
  have hcomparands : comparands t = [left, right] := by
    simp only [comparands, Tree.children, t, List.filter_cons, hleftForm, hoperator, hrightForm]
    rfl
  have hchild : t.child? .relationalOp = some operator := by
    simp only [Tree.child?, Tree.children, t, List.find?_cons, hleftOther]
    rfl
  change relational t scopes = _
  rw [relational, hcomparands, hchild]
  change comparand left scopes >>= _ = _
  rw [comparand_eq hleft, Comparison.truth]
  congr 1
  funext leftValue
  rw [comparand_eq hright]
  congr 1
  funext rightValue
  rw [leafToken_node]
  change require (compareBy? sign.kind leftValue rightValue) _ _ = _
  rw [hsign, compareBy?_eq]
  rfl

theorem truths_cons
    (frames : List Frame)
    (link : Link)
    (links : List Link) :
    Link.truths frames (link :: links) = do
      let truth ← link.comparison.truth frames
      let rest ← Link.truths frames links
      return (link.connective, truth) :: rest := by
  simp [Link.truths, List.mapM_cons]

/-- The truths of the links keep their connectives. -/
theorem connectives_of_truths
    {frames : List Frame}
    {links : List Link}
    {truths : List (Connective × Bool)}
    (h : Link.truths frames links = .ok truths) :
    truths.map Prod.fst = links.map Link.connective := by
  induction links generalizing truths with
  | nil =>
      cases h
      rfl
  | cons link links ih =>
      rw [truths_cons] at h
      cases htruth : link.comparison.truth frames with
      | error fault =>
          rw [htruth] at h
          cases h
      | ok truth =>
          cases hrest : Link.truths frames links with
          | error fault =>
              rw [htruth, hrest] at h
              cases h
          | ok rest =>
              rw [htruth, hrest] at h
              cases h
              simp [ih hrest]

theorem isForm_of_comparison
    {c : Comparison}
    {t : Tree}
    (h : c.Shows t) :
    t.isForm .relationalExp = true ∧ t.isForm .logicalOp = false := by
  obtain ⟨left, sign, right, rfl, -⟩ := h
  exact ⟨rfl, rfl⟩

/-- The comparisons of the links are evaluated one after the other. -/
theorem truths_eq
    {links : List Link}
    {trees : List Tree}
    (h : Link.Show links trees)
    (scopes : Scopes) :
    (trees.filter (·.isForm .relationalExp)).mapM (fun child => relational child scopes)
      = (Link.truths scopes.frames links).map (List.map Prod.snd) := by
  induction links generalizing trees with
  | nil =>
      obtain rfl := h
      rfl
  | cons link links ih =>
      obtain ⟨sign, comparison, rest, rfl, -, hshows, hrest⟩ := h
      obtain ⟨hform, -⟩ := isForm_of_comparison hshows
      have hsign :
          (Tree.node (.nonterminal .logicalOp) [.leaf sign]).isForm .relationalExp = false :=
        rfl
      rw [List.filter_cons_of_neg (by simp [hsign]), List.filter_cons_of_pos (by exact hform),
        List.mapM_cons, relational_eq hshows, ih hrest, truths_cons]
      cases link.comparison.truth scopes.frames with
      | error fault =>
          rfl
      | ok truth =>
          cases Link.truths scopes.frames links <;> rfl

/-- The connectives of the links are read one after the other. -/
theorem connectives_eq
    {links : List Link}
    {trees : List Tree}
    (h : Link.Show links trees) :
    (trees.filter (·.isForm .logicalOp)).mapM
        (fun child => (leafToken child).map Token.kind)
      = .ok (links.map fun link => link.connective.kind) := by
  induction links generalizing trees with
  | nil =>
      obtain rfl := h
      rfl
  | cons link links ih =>
      obtain ⟨sign, comparison, rest, rfl, hkind, hshows, hrest⟩ := h
      obtain ⟨-, hform⟩ := isForm_of_comparison hshows
      rw [List.filter_cons_of_pos rfl, List.filter_cons_of_neg (by simp [hform]),
        List.mapM_cons, leafToken_node, ih hrest]
      simp [Except.map, hkind, bind, Except.bind, pure, Except.pure]

theorem joinTruths_eq
    (position : Position)
    (truths : List (Connective × Bool))
    (truth : Bool) :
    joinTruths position truth (truths.map fun link => (link.1.kind, link.2))
      = .ok (truths.foldl (fun truth link => link.1.join truth link.2) truth) := by
  induction truths generalizing truth with
  | nil =>
      rfl
  | cons link truths ih =>
      obtain ⟨connective, other⟩ := link
      cases connective with
      | and =>
          exact ih (truth && other)
      | or =>
          exact ih (truth || other)

theorem logical_eq
    {first : Comparison}
    {links : List Link}
    {t : Tree}
    {trees : List Tree}
    (hfirst : first.Shows t)
    (hlinks : Link.Show links trees)
    (scopes : Scopes) :
    logical (.node (.nonterminal .logicalExp) (t :: trees)) scopes
      = Condition.truth ⟨first, links⟩ scopes.frames := by
  obtain ⟨hform, hother⟩ := isForm_of_comparison hfirst
  rw [logical, Tree.children, List.filter_cons_of_pos (by exact hform), List.mapM_cons,
    List.filter_cons_of_neg (by simp [hother]), relational_eq hfirst, truths_eq hlinks,
    connectives_eq hlinks, Condition.truth]
  cases first.truth scopes.frames with
  | error fault =>
      rfl
  | ok truth =>
      cases htruths : Link.truths scopes.frames links with
      | error fault =>
          rfl
      | ok truths =>
          have hkinds :
              (links.map fun link => link.connective.kind)
                = truths.map fun link => link.1.kind := by
            have hmap := congrArg (List.map Connective.kind) (connectives_of_truths htruths)
            rw [List.map_map, List.map_map] at hmap
            exact hmap.symm
          rw [hkinds]
          change (if (truths.map Prod.snd).length = (truths.map _).length then
            joinTruths _ truth ((truths.map _).zip (truths.map _)) else _) = _
          rw [if_pos (by simp), List.zip_map', joinTruths_eq]
          rfl

/-- A tree that shows a condition has its truth. -/
theorem condition_eq
    {c : Condition}
    {t : Tree}
    (h : c.Shows t)
    (scopes : Scopes) :
    condition t scopes = c.truth scopes.frames := by
  obtain ⟨opening, inner, closing, rfl, hinner⟩ := h
  obtain ⟨first, links⟩ := c
  cases links with
  | nil =>
      obtain ⟨left, sign, right, rfl, -⟩ := id hinner
      change relational _ scopes = _
      rw [relational_eq hinner, Condition.truth]
      cases first.truth scopes.frames <;> rfl
  | cons link links =>
      obtain ⟨t, trees, rfl, hfirst, hlinks⟩ := hinner
      exact logical_eq hfirst hlinks scopes

end Evaluation
end CometLang
