import CometLang.Evaluation.Arithmetic
import CometLang.Proofs.ExpressionMeaning
import CometLang.Proofs.Layout

/-!
# Arithmetic along the parse tree

A tree of arithmetic has a value by recursion: an operand at each factor, and
one operation at each node with an operator. The evaluator does not look at
this structure. It takes the leaves, reads all operands, and makes two passes
over the flat sequence.

Both come to the same, faults included, on every arithmetic expression in every
tree that a parse leaves behind.

* `treeValue` is the value by recursion, each operation exact and then wrapped
  around at 64 bits.
* On values that are known, two passes over a sum are a sum of two passes.
* Operands are read before anything is computed, so an operand that cannot be
  read is to blame even behind a division by zero.
-/

namespace CometLang
namespace Evaluation

/-! ## The value by recursion -/

/-- The exact result of an operation, wrapped around at 64 bits. -/
def applyOperator
    (operator : Token)
    (left right : Int64) : Except Fault Int64 :=
  match operator.kind with
  | .plus => .ok (.ofInt (left.toInt + right.toInt))
  | .minus => .ok (.ofInt (left.toInt - right.toInt))
  | .star => .ok (.ofInt (left.toInt * right.toInt))
  | .slash =>
      if right.toInt = 0 then
        .error ⟨.divisionByZero, operator.position⟩
      else
        .ok (.ofInt (left.toInt.tdiv right.toInt))
  | _ => .error (malformed "not an operator" operator.position)

/-- The value of a tree of arithmetic: what is at the left is evaluated first. -/
def treeValue (scopes : Scopes) : Tree → Except Fault Int64
  | .node (.nonterminal .factor) [operand] => do
      let token ← leafToken operand
      operandValue token scopes
  | .node (.nonterminal .term) [factor] => treeValue scopes factor
  | .node (.nonterminal .term) [term, .node (.token operator) [], factor] => do
      let left ← treeValue scopes term
      let right ← treeValue scopes factor
      applyOperator operator left right
  | .node (.nonterminal .arithExp) [term] => treeValue scopes term
  | .node (.nonterminal .arithExp) [sum, .node (.token operator) [], term] => do
      let left ← treeValue scopes sum
      let right ← treeValue scopes term
      applyOperator operator left right
  | t => .error (malformed "not arithmetic" (treePosition t))

theorem applyOperator_additive
    {operator : Token}
    (h : operator.kind.isAdditive = true)
    (left right : Int64) :
    applyOperator operator left right = .ok (add operator left right) := by
  cases hkind : operator.kind with
  | plus =>
      simp [applyOperator, add, hkind, Int64.ofInt_add]
  | minus =>
      simp [applyOperator, add, hkind, Int64.ofInt_sub]
  | _ =>
      rw [hkind] at h
      cases h

theorem applyOperator_multiplicative
    {operator : Token}
    (h : operator.kind.isMultiplicative = true)
    (left right : Int64) :
    applyOperator operator left right = multiply operator left right := by
  cases hkind : operator.kind with
  | star =>
      simp [applyOperator, multiply, hkind, Int64.ofInt_mul]
  | slash =>
      have hzero : right.toInt = 0 ↔ right = 0 := by
        rw [← Int64.toInt_inj, Int64.toInt_zero]
      have hquotient : Int64.ofInt (left.toInt.tdiv right.toInt) = left / right := by
        have hexact := Int64.ofInt_tdiv (Int64.minValue_le_toInt left) (Int64.toInt_le left)
          (Int64.minValue_le_toInt right) (Int64.toInt_le right)
        simpa using hexact
      simp [applyOperator, multiply, hkind, hzero, hquotient]
  | _ =>
      rw [hkind] at h
      cases h

/-! ## Two passes over known values -/

/-- The terms are formed, and then they are added up. -/
def twoPasses
    (left : Int64)
    (operations : List Operation) : Except Fault Int64 :=
  (formTerms left operations).2.map fun terms => (addTerms terms.1 terms.2).2

/-- Products and quotients are formed from left to right. -/
def productOf
    (left : Int64)
    (operations : List Operation) : Except Fault Int64 :=
  operations.foldlM (fun value operation => multiply operation.1 value operation.2) left

theorem productOf_append
    (operations : List Operation)
    (operator : Token)
    (left right : Int64) :
    productOf left (operations ++ [(operator, right)])
      = productOf left operations >>= fun value => multiply operator value right := by
  simp [productOf, List.foldlM_append]

/-- The evaluator reads all operands and then makes its two passes. -/
theorem computeTokens_eq
    (scopes : Scopes)
    (tokens : List Token) :
    (computeTokens scopes tokens).2
      = (readOperands scopes tokens).bind fun read => twoPasses read.1 read.2 := by
  rw [computeTokens]
  cases readOperands scopes tokens with
  | error fault =>
      rfl
  | ok read =>
      obtain ⟨first, operations⟩ := read
      simp only [Except.bind, twoPasses]
      obtain ⟨steps, terms⟩ := formTerms first operations
      cases terms <;> rfl

/-- Within a term the first pass does all the work. -/
theorem formTerms_of_multiplicative
    {operations : List Operation}
    (h : ∀ operation ∈ operations, operation.1.kind.isMultiplicative = true)
    (left : Int64) :
    (formTerms left operations).2 = (productOf left operations).map fun value => (value, []) := by
  induction operations generalizing left with
  | nil =>
      rfl
  | cons operation operations ih =>
      obtain ⟨operator, right⟩ := operation
      have hfirst : operator.kind.isMultiplicative = true := h (operator, right) (by simp)
      have hrest := ih fun operation hmem => h operation (by simp [hmem])
      rw [formTerms_multiplicative hfirst, productOf, List.foldlM_cons]
      cases multiply operator left right with
      | error fault =>
          rfl
      | ok value =>
          exact hrest value

theorem twoPasses_of_multiplicative
    {operations : List Operation}
    (h : ∀ operation ∈ operations, operation.1.kind.isMultiplicative = true)
    (left : Int64) :
    twoPasses left operations = productOf left operations := by
  rw [twoPasses, formTerms_of_multiplicative h]
  cases productOf left operations <;> rfl

/-- The first pass over a sum goes over its parts. -/
theorem formTerms_append
    {operator : Token}
    {more : List Operation}
    (hoperator : operator.kind.isMultiplicative = false)
    (hmore : ∀ operation ∈ more, operation.1.kind.isMultiplicative = true)
    (operations : List Operation)
    (left right : Int64) :
    (formTerms left (operations ++ (operator, right) :: more)).2 = do
      let terms ← (formTerms left operations).2
      let value ← productOf right more
      return (terms.1, terms.2 ++ [(operator, value)]) := by
  induction operations generalizing left with
  | nil =>
      rw [List.nil_append, formTerms_additive hoperator, formTerms_of_multiplicative hmore]
      cases productOf right more <;> rfl
  | cons operation operations ih =>
      obtain ⟨sign, value⟩ := operation
      rw [List.cons_append]
      cases hsign : sign.kind.isMultiplicative with
      | true =>
          rw [formTerms_multiplicative hsign, formTerms_multiplicative hsign]
          cases multiply sign left value with
          | error fault =>
              rfl
          | ok result =>
              exact ih result
      | false =>
          rw [formTerms_additive hsign, formTerms_additive hsign, ih]
          cases (formTerms value operations).2 with
          | error fault =>
              rfl
          | ok terms =>
              cases productOf right more <;> rfl

theorem addTerms_append
    (operations : List Operation)
    (operator : Token)
    (left right : Int64) :
    (addTerms left (operations ++ [(operator, right)])).2
      = add operator (addTerms left operations).2 right := by
  induction operations generalizing left with
  | nil =>
      rfl
  | cons operation operations ih =>
      exact ih _

/-- Two passes over a sum are a sum of two passes and a product. -/
theorem twoPasses_append
    {operator : Token}
    {more : List Operation}
    (hoperator : operator.kind.isMultiplicative = false)
    (hmore : ∀ operation ∈ more, operation.1.kind.isMultiplicative = true)
    (operations : List Operation)
    (left right : Int64) :
    twoPasses left (operations ++ (operator, right) :: more) = do
      let total ← twoPasses left operations
      let value ← productOf right more
      return add operator total value := by
  rw [twoPasses, formTerms_append hoperator hmore, twoPasses]
  cases (formTerms left operations).2 with
  | error fault =>
      rfl
  | ok terms =>
      cases productOf right more with
      | error fault =>
          rfl
      | ok value =>
          exact congrArg Except.ok (addTerms_append terms.2 operator terms.1 value)

theorem multiply_eq_error
    {operator : Token}
    {left right : Int64}
    {fault : Fault}
    (hoperator : operator.kind.isMultiplicative = true)
    (h : multiply operator left right = .error fault) :
    operator.kind = .slash ∧ right = 0 ∧ fault = ⟨.divisionByZero, operator.position⟩ := by
  rw [multiply] at h
  split at h
  · cases h
  · next hstar =>
      have hslash : operator.kind = .slash := by
        cases hkind : operator.kind <;> simp_all [Kind.isMultiplicative]
      split at h
      · next hzero =>
          cases h
          exact ⟨hslash, hzero, rfl⟩
      · cases h

/-- A fault of the passes is that of a division by zero. -/
theorem exists_zero_of_twoPasses
    {operations : List Operation}
    {left : Int64}
    {fault : Fault}
    (h : twoPasses left operations = .error fault) :
    ∃ operation ∈ operations,
      operation.1.kind = .slash ∧ operation.2 = 0 ∧
        fault = ⟨.divisionByZero, operation.1.position⟩ := by
  have hterms : (formTerms left operations).2 = .error fault := by
    rw [twoPasses] at h
    cases hresult : (formTerms left operations).2 with
    | error other =>
        rw [hresult] at h
        cases h
        rfl
    | ok terms =>
        rw [hresult] at h
        cases h
  clear h
  induction operations generalizing left with
  | nil =>
      cases hterms
  | cons operation operations ih =>
      obtain ⟨operator, right⟩ := operation
      cases hoperator : operator.kind.isMultiplicative with
      | false =>
          rw [formTerms_additive hoperator] at hterms
          cases hresult : (formTerms right operations).2 with
          | ok terms =>
              rw [hresult] at hterms
              cases hterms
          | error other =>
              rw [hresult] at hterms
              cases hterms
              obtain ⟨found, hmem, hfound⟩ := ih hresult
              exact ⟨found, by simp [hmem], hfound⟩
      | true =>
          rw [formTerms_multiplicative hoperator] at hterms
          cases hresult : multiply operator left right with
          | ok value =>
              rw [hresult] at hterms
              obtain ⟨found, hmem, hfound⟩ := ih hterms
              exact ⟨found, by simp [hmem], hfound⟩
          | error other =>
              rw [hresult] at hterms
              cases hterms
              exact ⟨(operator, right), by simp, multiply_eq_error hoperator hresult⟩

/-- A division by zero makes the passes fail. -/
theorem twoPasses_of_zero
    {operations : List Operation}
    {slash : Token}
    (hmem : (slash, 0) ∈ operations)
    (hkind : slash.kind = .slash)
    (left : Int64) :
    ∃ fault, twoPasses left operations = .error fault := by
  suffices hterms : ∃ fault, (formTerms left operations).2 = .error fault by
    obtain ⟨fault, hfault⟩ := hterms
    exact ⟨fault, by rw [twoPasses, hfault]; rfl⟩
  induction operations generalizing left with
  | nil =>
      cases hmem
  | cons first operations ih =>
      obtain ⟨operator, right⟩ := first
      cases hoperator : operator.kind.isMultiplicative with
      | false =>
          rcases List.mem_cons.1 hmem with heq | hmem
          · cases heq
            rw [hkind] at hoperator
            cases hoperator
          · obtain ⟨fault, hfault⟩ := ih hmem right
            exact ⟨fault, by rw [formTerms_additive hoperator, hfault]; rfl⟩
      | true =>
          rw [formTerms_multiplicative hoperator]
          cases hresult : multiply operator left right with
          | error fault =>
              exact ⟨fault, rfl⟩
          | ok value =>
              rcases List.mem_cons.1 hmem with heq | hmem
              · cases heq
                simp [multiply, hkind] at hresult
              · exact ih hmem value

/-! ## Reading a layout -/

/-- The operations of pairs whose operands have the given values. -/
def valued
    (values : Token → Int64)
    (pairs : List Pair) : List Operation :=
  pairs.map fun pair => (pair.1, values pair.2)

theorem valued_append
    (values : Token → Int64)
    (as bs : List Pair) :
    valued values (as ++ bs) = valued values as ++ valued values bs := by
  simp [valued]

/-- Where all operands can be read, their values are the operations. -/
theorem readOperations_flatten
    {scopes : Scopes}
    {values : Token → Int64}
    {pairs : List Pair}
    (hpairs : ∀ pair ∈ pairs, pair.1.kind.isArithmetic = true)
    (hvalues : ∀ pair ∈ pairs, operandValue pair.2 scopes = .ok (values pair.2)) :
    readOperations scopes (flatten pairs) = .ok (valued values pairs) := by
  induction pairs with
  | nil =>
      rfl
  | cons pair pairs ih =>
      have hrest := ih (fun other hmem => hpairs other (by simp [hmem]))
        (fun other hmem => hvalues other (by simp [hmem]))
      rw [flatten_cons, readOperations, if_pos (hpairs pair (by simp)),
        hvalues pair (by simp), hrest]
      rfl

/-- An operand that cannot be read stops the reading. -/
theorem readOperations_of_unreadable
    {scopes : Scopes}
    {operator operand : Token}
    {before : List Pair}
    {fault : Fault}
    (hbefore : ∀ pair ∈ before, pair.1.kind.isArithmetic = true ∧
      ∃ value, operandValue pair.2 scopes = .ok value)
    (hoperator : operator.kind.isArithmetic = true)
    (hfault : operandValue operand scopes = .error fault)
    (behind : List Pair) :
    readOperations scopes (flatten (before ++ (operator, operand) :: behind)) = .error fault := by
  induction before with
  | nil =>
      rw [List.nil_append, flatten_cons, readOperations, if_pos hoperator, hfault]
      rfl
  | cons pair before ih =>
      obtain ⟨hsign, value, hvalue⟩ := hbefore pair (by simp)
      have hrest := ih fun other hmem => hbefore other (by simp [hmem])
      rw [List.cons_append, flatten_cons, readOperations, if_pos hsign, hvalue, hrest]
      rfl

/--
An operand among the leaves is the first one, or it stands behind an operator.
By induction on the pairs: behind the first operator, its operand takes the part
of the first one.
-/
theorem split_operand
    {first operand : Token}
    {pairs : List Pair}
    {before after : List Token}
    (hpairs : ∀ pair ∈ pairs, pair.1.kind.isOperand = false)
    (hoperand : operand.kind.isOperand = true)
    (h : first :: flatten pairs = before ++ operand :: after) :
    (before = [] ∧ operand = first) ∨
      ∃ front operator behind,
        pairs = front ++ (operator, operand) :: behind ∧
          before = first :: (flatten front ++ [operator]) := by
  induction pairs generalizing first before with
  | nil =>
      cases before with
      | nil =>
          exact .inl ⟨rfl, (List.cons.inj h).1.symm⟩
      | cons token before =>
          simp at h
  | cons pair pairs ih =>
      obtain ⟨sign, next⟩ := pair
      have hsign : sign.kind.isOperand = false := hpairs (sign, next) (by simp)
      match before, h with
      | [], h =>
          exact .inl ⟨rfl, (List.cons.inj h).1.symm⟩
      | [token], h =>
          obtain ⟨rfl, rfl, -⟩ : first = token ∧ sign = operand ∧ _ := by
            simpa using h
          rw [hsign] at hoperand
          cases hoperand
      | token :: other :: before, h =>
          obtain ⟨rfl, rfl, hrest⟩ : first = token ∧ sign = other ∧ _ := by
            simpa using h
          rcases ih (fun pair hmem => hpairs pair (by simp [hmem])) hrest with
            ⟨rfl, rfl⟩ | ⟨front, operator, behind, rfl, rfl⟩
          · exact .inr ⟨[], sign, pairs, rfl, rfl⟩
          · exact .inr ⟨(sign, next) :: front, operator, behind, rfl, rfl⟩

/-- An operator among the leaves has its operand right behind it. -/
theorem split_operator
    {first operator : Token}
    {pairs : List Pair}
    {before after : List Token}
    (hfirst : first.kind.isArithmetic = false)
    (hpairs : ∀ pair ∈ pairs, pair.2.kind.isArithmetic = false)
    (hoperator : operator.kind.isArithmetic = true)
    (h : first :: flatten pairs = before ++ operator :: after) :
    ∃ operand ∈ after.head?, (operator, operand) ∈ pairs := by
  induction pairs generalizing first before with
  | nil =>
      cases before with
      | nil =>
          obtain ⟨rfl, -⟩ := List.cons.inj h
          rw [hfirst] at hoperator
          cases hoperator
      | cons token before =>
          simp at h
  | cons pair pairs ih =>
      obtain ⟨sign, next⟩ := pair
      match before, h with
      | [], h =>
          obtain ⟨rfl, -⟩ := List.cons.inj h
          rw [hfirst] at hoperator
          cases hoperator
      | [token], h =>
          obtain ⟨rfl, rfl, hafter⟩ : first = token ∧ sign = operator ∧ _ := by
            simpa using h
          exact ⟨next, by simp [← hafter], by simp⟩
      | token :: other :: before, h =>
          obtain ⟨rfl, rfl, hrest⟩ : first = token ∧ sign = other ∧ _ := by
            simpa using h
          obtain ⟨operand, hhead, hmem⟩ := ih (hpairs (sign, next) (by simp))
            (fun pair hmem => hpairs pair (by simp [hmem])) hrest
          exact ⟨operand, hhead, by simp [hmem]⟩

namespace Layout

variable {scopes : Scopes} {values : Token → Int64}
variable {form : Nonterminal} {t : Tree} {first : Token} {pairs : List Pair}

/-- Within a term all operations multiply or divide. -/
theorem isMultiplicative_valued
    (h : Layout .term t first pairs)
    (values : Token → Int64) :
    ∀ operation ∈ valued values pairs, operation.1.kind.isMultiplicative = true := by
  intro operation hmem
  obtain ⟨pair, hpair, rfl⟩ := List.mem_map.1 hmem
  exact h.isMultiplicative_of_term pair hpair

/-- Evaluation by recursion comes to the same as two passes over the leaves. -/
theorem treeValue_eq
    (h : Layout form t first pairs)
    (hfirst : operandValue first scopes = .ok (values first))
    (hpairs : ∀ pair ∈ pairs, operandValue pair.2 scopes = .ok (values pair.2)) :
    treeValue scopes t = twoPasses (values first) (valued values pairs) := by
  induction h with
  | factor _ =>
      rw [treeValue, leafToken_node]
      exact hfirst
  | term _ ih =>
      rw [treeValue]
      exact ih hfirst hpairs
  | @product term factor first operator operand pairs hterm hoperator hfactor ihterm ihfactor =>
      have hleft := ihterm hfirst fun pair hmem => hpairs pair (by simp [hmem])
      have hright : treeValue scopes factor = .ok (values operand) :=
        ihfactor (hpairs (operator, operand) (by simp)) (by simp)
      have hwhole := isMultiplicative_valued (.product hterm hoperator hfactor) values
      have hsplit := productOf_append (valued values pairs) operator (values first)
        (values operand)
      rw [Tree.leaf, treeValue, hleft, hright, twoPasses_of_multiplicative hwhole,
        twoPasses_of_multiplicative (isMultiplicative_valued hterm values), valued_append]
      simp only [applyOperator_multiplicative hoperator]
      exact hsplit.symm
  | single _ ih =>
      rw [treeValue]
      exact ih hfirst hpairs
  | @sum sum term first operator operand pairs more hsum hoperator hterm ihsum ihterm =>
      have hleft := ihsum hfirst fun pair hmem => hpairs pair (by simp [hmem])
      have hright := ihterm (hpairs (operator, operand) (by simp)) fun pair hmem =>
        hpairs pair (by simp [hmem])
      have hmore := isMultiplicative_valued hterm values
      have hsplit := twoPasses_append (isMultiplicative_of_isAdditive hoperator) hmore
        (valued values pairs) (values first) (values operand)
      rw [Tree.leaf, treeValue, hleft, hright, twoPasses_of_multiplicative hmore, valued_append]
      simp only [applyOperator_additive hoperator]
      exact hsplit.symm

/-- Where all operands can be read, the evaluator makes two passes over their values. -/
theorem arithmetic_eq
    (h : Layout form t first pairs)
    (hfirst : operandValue first scopes = .ok (values first))
    (hpairs : ∀ pair ∈ pairs, operandValue pair.2 scopes = .ok (values pair.2)) :
    arithmetic t scopes = twoPasses (values first) (valued values pairs) := by
  have hread := readOperations_flatten (fun pair hmem => (h.kinds_of_pairs pair hmem).1) hpairs
  rw [arithmetic, compute, h.leaves_eq, computeTokens_eq, readOperands, hfirst, hread]
  rfl

/-- The first operand that cannot be read is to blame. -/
theorem arithmetic_of_unreadable
    {before after : List Token}
    {operand : Token}
    {fault : Fault}
    (h : Layout form t first pairs)
    (hleaves : t.leaves = before ++ operand :: after)
    (hoperand : operand.kind.isOperand = true)
    (hfault : operandValue operand scopes = .error fault)
    (hbefore : ∀ token ∈ before, token.kind.isOperand = true →
      ∃ value, operandValue token scopes = .ok value) :
    arithmetic t scopes = .error fault := by
  have hkinds := h.kinds_of_pairs
  have hsigns (pair : Pair) (hmem : pair ∈ pairs) : pair.1.kind.isOperand = false :=
    isOperand_of_isArithmetic (hkinds pair hmem).1
  rw [h.leaves_eq] at hleaves
  rw [arithmetic, compute, h.leaves_eq, computeTokens_eq, readOperands]
  rcases split_operand hsigns hoperand hleaves with
    ⟨rfl, rfl⟩ | ⟨front, operator, behind, rfl, rfl⟩
  · rw [hfault]
    rfl
  · obtain ⟨value, hvalue⟩ := hbefore first (by simp) h.isOperand_first
    have hfront (pair : Pair) (hmem : pair ∈ front) :
        pair.1.kind.isArithmetic = true ∧ ∃ value, operandValue pair.2 scopes = .ok value := by
      obtain ⟨hsign, hnext⟩ := hkinds pair (by simp [hmem])
      exact ⟨hsign, hbefore pair.2 (by simp [mem_flatten_of_mem hmem]) hnext⟩
    have hread := readOperations_of_unreadable hfront (hkinds (operator, operand) (by simp)).1
      hfault behind
    rw [hvalue, hread]
    rfl

/-- The passes fail just where an operand behind `/` is zero. -/
theorem exists_zero_iff
    (h : Layout form t first pairs)
    (hpairs : ∀ pair ∈ pairs, operandValue pair.2 scopes = .ok (values pair.2)) :
    (∃ fault, twoPasses (values first) (valued values pairs) = .error fault) ↔
      ∃ before slash divisor after,
        t.leaves = before ++ slash :: divisor :: after ∧ slash.kind = .slash ∧
          operandValue divisor scopes = .ok 0 := by
  rw [h.leaves_eq]
  constructor
  · rintro ⟨fault, hfault⟩
    obtain ⟨operation, hmem, hkind, hzero, -⟩ := exists_zero_of_twoPasses hfault
    obtain ⟨pair, hpair, rfl⟩ := List.mem_map.1 hmem
    obtain ⟨front, behind, rfl⟩ := List.append_of_mem hpair
    refine ⟨first :: flatten front, pair.1, pair.2, flatten behind, by simp, hkind, ?_⟩
    rw [hpairs pair hpair]
    exact congrArg Except.ok hzero
  · rintro ⟨before, slash, divisor, after, hleaves, hkind, hzero⟩
    have hoperator : slash.kind.isArithmetic = true := by
      rw [hkind]
      rfl
    obtain ⟨operand, hhead, hmem⟩ :=
      split_operator (isArithmetic_of_isOperand h.isOperand_first)
        (fun pair hpair => isArithmetic_of_isOperand (h.kinds_of_pairs pair hpair).2)
        hoperator hleaves
    obtain rfl : divisor = operand := by
      simpa using hhead
    have hvalue : values divisor = 0 := by
      have hread := hpairs _ hmem
      rw [hzero] at hread
      exact (Except.ok.inj hread).symm
    have hoperation : (slash, 0) ∈ valued values pairs :=
      List.mem_map.2 ⟨(slash, divisor), hmem, by simp [hvalue]⟩
    exact twoPasses_of_zero hoperation hkind _

end Layout

/-- Every operand among the tokens stands for a whole number. -/
def Readable
    (scopes : Scopes)
    (tokens : List Token) : Prop :=
  ∀ token ∈ tokens, token.kind.isOperand = true →
    ∃ value, operandValue token scopes = .ok value

/-- Operands that can be read have values. -/
theorem exists_values
    {scopes : Scopes}
    {tokens : List Token}
    (h : Readable scopes tokens) :
    ∃ values : Token → Int64, ∀ token ∈ tokens, token.kind.isOperand = true →
      operandValue token scopes = .ok (values token) := by
  refine ⟨fun token => (operandValue token scopes).toOption.getD 0, ?_⟩
  intro token hmem hkind
  obtain ⟨value, hvalue⟩ := h token hmem hkind
  simp [hvalue, Except.toOption]

end Evaluation

namespace Derivation

open Evaluation

/--
On every arithmetic expression in the tree of a parse, the evaluator comes to
the value by recursion if all operands can be read, and it fails just where an
operand behind `/` is zero. If some operand cannot be read, the first such
operand is to blame, whatever stands before it.
-/
theorem arithmetic_eq_treeValue
    (tokens : List Token)
    (t : Tree)
    (ht : t.OccursIn (parse tokens).tree)
    (hform : t.form? = some .arithExp)
    (scopes : Scopes) :
    (Readable scopes t.leaves →
      arithmetic t scopes = treeValue scopes t ∧
        ((∃ fault, arithmetic t scopes = .error fault) ↔
          ∃ before slash divisor after,
            t.leaves = before ++ slash :: divisor :: after ∧ slash.kind = .slash ∧
              operandValue divisor scopes = .ok 0) ∧
        ∀ fault, arithmetic t scopes = .error fault →
          ∃ slash ∈ t.leaves,
            slash.kind = .slash ∧ fault = ⟨.divisionByZero, slash.position⟩) ∧
      ∀ before operand after fault,
        t.leaves = before ++ operand :: after → operand.kind.isOperand = true →
          operandValue operand scopes = .error fault → Readable scopes before →
          arithmetic t scopes = .error fault := by
  obtain ⟨first, pairs, hlayout⟩ :=
    exists_layout (derived_of_occursIn_parse ht hform) hform rfl
  constructor
  · intro hreadable
    obtain ⟨values, hvalues⟩ := exists_values hreadable
    rw [hlayout.leaves_eq] at hvalues
    have hfirst := hvalues first (by simp) hlayout.isOperand_first
    have hpairs (pair : Pair) (hmem : pair ∈ pairs) :
        operandValue pair.2 scopes = .ok (values pair.2) :=
      hvalues pair.2 (by simp [mem_flatten_of_mem hmem]) (hlayout.kinds_of_pairs pair hmem).2
    have hpasses := hlayout.arithmetic_eq hfirst hpairs
    refine ⟨hpasses.trans (hlayout.treeValue_eq hfirst hpairs).symm, ?_, ?_⟩
    · rw [hpasses]
      exact hlayout.exists_zero_iff hpairs
    · intro fault hfault
      rw [hpasses] at hfault
      obtain ⟨operation, hmem, hkind, -, hblame⟩ := exists_zero_of_twoPasses hfault
      obtain ⟨pair, hpair, rfl⟩ := List.mem_map.1 hmem
      refine ⟨pair.1, ?_, hkind, hblame⟩
      rw [hlayout.leaves_eq]
      exact List.mem_cons_of_mem _ (List.mem_flatMap.2 ⟨pair, hpair, by simp⟩)
  · intro before operand after fault hleaves hoperand hfault hbefore
    exact hlayout.arithmetic_of_unreadable hleaves hoperand hfault hbefore

/--
In `1 / 0 + x` the operand `x` is to blame if it is not bound; if it is, the
value is that of the tree.
-/
theorem arithmetic_behind_zero :
    ∃ t : Tree,
      t.OccursIn (parse (Abstract.Program.arithmetic ⟨.literal "1" .unknown,
        ⟨.divide .unknown, .literal "0" .unknown⟩,
        [⟨.plus, .name ⟨"x", .unknown⟩⟩]⟩).spelling).tree ∧
      arithmetic t ⟨[Table.empty.insert "x" "5"], []⟩
        = treeValue ⟨[Table.empty.insert "x" "5"], []⟩ t ∧
      arithmetic t ⟨[], []⟩ = .error ⟨.undeclared "x", .unknown⟩ := by
  obtain ⟨t, ht, hform, hleaves⟩ :
      ∃ t : Tree,
        t.OccursIn (parse (Abstract.Program.arithmetic ⟨.literal "1" .unknown,
          ⟨.divide .unknown, .literal "0" .unknown⟩,
          [⟨.plus, .name ⟨"x", .unknown⟩⟩]⟩).spelling).tree ∧
        t.form? = some .arithExp ∧
        t.leaves = [Abstract.Piece.token ⟨.cometLiteral, some "1", none⟩,
          Abstract.Piece.token (.fixed .slash),
          Abstract.Piece.token ⟨.cometLiteral, some "0", none⟩,
          Abstract.Piece.token (.fixed .plus),
          Abstract.Piece.token ⟨.identifier, some "x", none⟩] :=
    ⟨_, .inside (List.mem_singleton_self _) (.here _), rfl, rfl⟩
  refine ⟨t, ht, ?_, ?_⟩
  · refine ((arithmetic_eq_treeValue _ t ht hform _).1 ?_).1
    rw [hleaves]
    simp only [Readable, List.forall_mem_cons]
    exact ⟨fun _ => ⟨1, rfl⟩, fun h => (nomatch h), fun _ => ⟨0, rfl⟩, fun h => (nomatch h),
      fun _ => ⟨5, rfl⟩, List.forall_mem_nil _⟩
  · refine (arithmetic_eq_treeValue _ t ht hform _).2 _ _ _ _
      (show t.leaves = [_, _, _, _] ++ _ :: [] from hleaves) rfl rfl ?_
    simp only [Readable, List.forall_mem_cons]
    exact ⟨fun _ => ⟨1, rfl⟩, fun h => (nomatch h), fun _ => ⟨0, rfl⟩, fun h => (nomatch h),
      List.forall_mem_nil _⟩

end Derivation
end CometLang
