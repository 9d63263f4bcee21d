import CometLang.Proofs.Abstract
import CometLang.Proofs.Gathering

/-!
# Programs one after the other

What has been read as whole items is settled, and so all of it is gathered into
expressions. No window starts with an expression, and in front of a window an
expression counts as much as nothing. So what is read behind whole items is read
as if they were not there, reduction by reduction, whether it is well formed or
not.

The second attempt at the end of a program is different: it looks for a single
arithmetic expression, and the expressions in front never become part of one.
-/

namespace CometLang

open Derivation

/-! ## Whole items -/

namespace Production

/-- Where nothing is found, no symbol is the start of a window. -/
theorem exists_widthAt?_eq_none
    {p : Production}
    {mode : Mode}
    {before : Option Symbol}
    {start : Nat}
    {s : Symbol}
    {symbols : List Symbol}
    (h : p.findFrom? mode before start symbols = none)
    (hs : s ∈ symbols) :
    ∃ previous behind, p.widthAt? mode previous (s :: behind) = none := by
  induction symbols generalizing before start with
  | nil =>
      cases hs
  | cons t rest ih =>
      rw [findFrom?] at h
      split at h
      · cases h
      · next hnone =>
          rcases List.mem_cons.1 hs with rfl | hs
          · exact ⟨before, rest, hnone⟩
          · exact ih h hs

/-- A statement is gathered wherever it stands. -/
theorem widthAt?_expression
    {s : Symbol}
    (haccepting : s.isAccepting = true)
    (hform : s ≠ .nonterminal .expr)
    (mode : Mode)
    (before : Option Symbol)
    (behind : List Symbol) :
    expression.widthAt? mode before (s :: behind) = some 1 := by
  cases s with
  | terminal token =>
      cases haccepting
  | nonterminal form =>
      cases form with
      | expr =>
          exact absurd rfl hform
      | decStmt | orbitStmt | whirlLoop | launchWhirlLoop =>
          rfl
      | _ =>
          cases haccepting

end Production

/-- Whole items that are settled are gathered. -/
theorem eq_expr_of_settled
    {symbols : List Symbol}
    (hnone : nextReduction? .primary symbols = none)
    (haccepting : symbols.all Symbol.isAccepting = true) :
    ∀ s ∈ symbols, s = .nonterminal .expr := by
  intro s hs
  by_contra hform
  have hfind : Production.expression.find? .primary symbols = none := by
    have hall := List.findSome?_eq_none_iff.1 hnone _ Production.expression.mem_all
    exact Option.map_eq_none_iff.1 hall
  obtain ⟨previous, behind, hwidth⟩ := Production.exists_widthAt?_eq_none hfind hs
  have hsome :=
    Production.widthAt?_expression (List.all_eq_true.1 haccepting s hs) hform .primary
      previous behind
  rw [hwidth] at hsome
  cases hsome

namespace Limb

variable {front last : List Limb}

/-- What is read behind whole items is read as if they were not there. -/
theorem Reads.behind_items
    {first second : List Token}
    (hfirst : Reads unguarded [] first front)
    (haccepting : (symbols front).all Symbol.isAccepting = true)
    (hsecond : Reads unguarded [] second last) :
    Reads unguarded [] (first ++ second) (front ++ last) := by
  have hitems := eq_expr_of_settled (hfirst.nextReduction?_last rfl) haccepting
  have hseparates : Separates unguarded unguarded (symbols front) :=
    separates_items hitems fun _ _ => rfl
  have hbehind := hsecond.behind hseparates
  rw [List.append_nil] at hbehind
  exact hfirst.append hbehind

/-- An item in front stays in front, in whatever mode productions fire. -/
theorem Settles.head?_expr
    {mode : Mode}
    {guard : List Symbol → Bool}
    {limbs : List Limb}
    (h : Settles mode guard limbs last)
    (hhead : (symbols limbs).head? = some (.nonterminal .expr)) :
    (symbols last).head? = some (.nonterminal .expr) := by
  refine h.preserves
    (P := fun current => (symbols current).head? = some (.nonterminal .expr)) ?_ hhead
  intro current p r hsome hcurrent
  obtain ⟨before, window, behind, rfl, rfl, happlies⟩ := nextReduction?_limbs hsome
  rw [splice_append]
  cases before with
  | cons limb before =>
      exact hcurrent
  | nil =>
      -- The window would start with the item in front.
      cases window with
      | nil =>
          exact absurd rfl (Production.spans_ne_nil happlies.spans)
      | cons limb window =>
          have hlimb : limb.symbol = .nonterminal .expr := Option.some.inj hcurrent
          have hstart := Rhs.mayStart_of_spans happlies.spans
          rw [hlimb, p.not_mayStart_expr] at hstart
          cases hstart

end Limb

/-! ## Parsing -/

namespace Derivation

/-- Before the verdict the state carries what the tokens are read to. -/
theorem carries_primary
    {guard : List Symbol → Bool}
    {tokens : List Token}
    {limbs : List Limb}
    (h : Limb.Reads guard [] tokens limbs) :
    (parse tokens).primary.Carries tokens.length limbs := by
  rw [primary_parse]
  exact State.settle_carries h (h.nextReduction?_last rfl)

/-- A program that is read as whole items needs no second attempt. -/
theorem tree_parse_of_accepting
    {tokens : List Token}
    (h : (parse tokens).primary.isAccepting = true) :
    (parse tokens).tree = (parse tokens).primary.tree := by
  rcases state_parse tokens with hstate | ⟨hrejected, -⟩
  · rw [Outcome.tree, hstate]
    rfl
  · rw [h] at hrejected
    cases hrejected

/-- Behind an item a second attempt is in vain. -/
theorem isSingleArithmetic_of_head?_expr
    {s : State}
    {capacity : Nat}
    {limbs : List Limb}
    (h : s.Carries capacity limbs)
    (hhead : (Limb.symbols limbs).head? = some (.nonterminal .expr)) :
    (s.reduce .fallback).1.isSingleArithmetic = false := by
  obtain ⟨last, hsettles⟩ := Limb.exists_settles .fallback limbs
  have hlast := hsettles.head?_expr hhead
  rw [Bool.eq_false_iff]
  intro hsingle
  obtain ⟨limb, rfl, hform⟩ := (h.reduce hsettles).1.isSingleArithmetic_iff.1 hsingle
  rw [Limb.symbols_cons, List.head?_cons, hform] at hlast
  cases hlast

section

variable {first : List Token}
variable (h : (parse first).primary.isAccepting = true)
variable (second : List Token)

include h

/-- What the second program is read to stands behind the items of the first. -/
theorem exists_carries_append :
    ∃ front last,
      (parse first).primary.Carries first.length front ∧
        (parse second).primary.Carries second.length last ∧
        (parse (first ++ second)).primary.Carries (first ++ second).length (front ++ last) ∧
        (∀ s ∈ Limb.symbols front, s = .nonterminal .expr) ∧
        (front = [] → first = []) := by
  obtain ⟨front, hfirst⟩ := Limb.exists_reads [] first
  obtain ⟨last, hsecond⟩ := Limb.exists_reads [] second
  have hfront := carries_primary hfirst
  have haccepting : (Limb.symbols front).all Symbol.isAccepting = true := by
    rw [← hfront.symbols_eq]
    exact h
  refine ⟨front, last, hfront, carries_primary hsecond,
    carries_primary (hfirst.behind_items haccepting hsecond),
    eq_expr_of_settled (hfirst.nextReduction?_last rfl) haccepting, ?_⟩
  rintro rfl
  exact hfirst.leaves_eq.symm

theorem symbols_primary_append :
    (parse (first ++ second)).primary.symbols
      = (parse first).primary.symbols ++ (parse second).primary.symbols := by
  obtain ⟨front, last, hfirst, hsecond, hboth, -⟩ := exists_carries_append h second
  rw [hboth.symbols_eq, hfirst.symbols_eq, hsecond.symbols_eq, Limb.symbols_append]

theorem tree_primary_append :
    (parse (first ++ second)).primary.tree
      = .node .program
          ((parse first).primary.tree.children ++ (parse second).primary.tree.children) := by
  obtain ⟨front, last, hfirst, hsecond, hboth, -⟩ := exists_carries_append h second
  rw [hboth.tree, hfirst.tree, hsecond.tree, Limb.trees_append]
  rfl

/-- Together the two are whole items if the second program is. -/
theorem isAccepting_primary_append :
    (parse (first ++ second)).primary.isAccepting = (parse second).primary.isAccepting := by
  have hfirst : (parse first).primary.symbols.all Symbol.isAccepting = true := h
  rw [State.isAccepting, State.isAccepting, symbols_primary_append h, List.all_append, hfirst,
    Bool.true_and]

theorem isSingleArithmetic_append
    (hne : first ≠ []) :
    ((parse (first ++ second)).primary.reduce .fallback).1.isSingleArithmetic = false := by
  obtain ⟨front, last, -, -, hboth, hitems, hempty⟩ := exists_carries_append h second
  refine isSingleArithmetic_of_head?_expr hboth ?_
  cases front with
  | nil =>
      exact absurd (hempty rfl) hne
  | cons limb front =>
      exact congrArg some (hitems limb.symbol List.mem_cons_self)

theorem verdict_append
    (hne : first ≠ []) :
    (parse (first ++ second)).verdict = .accept ↔
      (parse second).primary.isAccepting = true := by
  rw [verdict_parse, isAccepting_primary_append h, isSingleArithmetic_append h second hne]
  simp

theorem tree_append
    (hne : first ≠ []) :
    (parse (first ++ second)).tree
      = .node .program
          ((parse first).tree.children ++ (parse second).primary.tree.children) := by
  rw [tree_parse_of_accepting h, ← tree_primary_append h]
  rcases state_parse (first ++ second) with hstate | ⟨-, hsingle, -⟩
  · rw [Outcome.tree, hstate]
    rfl
  · rw [isSingleArithmetic_append h second hne] at hsingle
    cases hsingle

end

/--
Tokens that have been read as whole items do not change how others are read
behind them: stacks and trees are put one behind the other. So, if there are any
such tokens, the others are accepted behind them if they are read as whole items
themselves, and rejected otherwise; a second attempt is of no use there.
-/
theorem parse_append
    (first second : List Token)
    (h : (parse first).primary.isAccepting = true) :
    (parse (first ++ second)).primary.symbols
        = (parse first).primary.symbols ++ (parse second).primary.symbols ∧
      (parse (first ++ second)).primary.tree.children
        = (parse first).primary.tree.children ++ (parse second).primary.tree.children ∧
      (first ≠ [] →
        ((parse (first ++ second)).verdict = .accept ↔
            (parse second).primary.isAccepting = true) ∧
          ((parse second).primary.isAccepting = false →
            (parse (first ++ second)).verdict = .reject) ∧
          (parse (first ++ second)).tree
            = .node .program
                ((parse first).tree.children ++ (parse second).primary.tree.children) ∧
          ((parse (first ++ second)).verdict = .accept →
            (parse (first ++ second)).tree
              = .node .program
                  ((parse first).tree.children ++ (parse second).tree.children))) := by
  refine ⟨symbols_primary_append h second,
    congrArg Tree.children (tree_primary_append h second), fun hne => ?_⟩
  have hverdict := verdict_append h second hne
  refine ⟨hverdict, ?_, tree_append h second hne, ?_⟩
  · intro hrejected
    cases hword : (parse (first ++ second)).verdict with
    | accept =>
        rw [hverdict.1 hword] at hrejected
        cases hrejected
    | reject =>
        rfl
  · intro haccepted
    rw [tree_append h second hne, tree_parse_of_accepting (hverdict.1 haccepted)]

/-- `Comet x = 5;` -/
def declared : List Token :=
  (Abstract.Program.items []
    (.declaration ⟨"x", .unknown⟩ (.operand (.literal "5" .unknown)))).spelling

/-- `1 + 2`, which is accepted at the second attempt only. -/
def bareSum : List Token :=
  (Abstract.Program.arithmetic
    ⟨.literal "1" .unknown, ⟨.plus, .literal "2" .unknown⟩, []⟩).spelling

/-- A sum that is a program by itself is none behind a declaration; a declaration is one. -/
theorem parse_append_bareSum :
    (parse declared).primary.isAccepting = true ∧
      (parse bareSum).verdict = .accept ∧
      (parse (declared ++ bareSum)).verdict = .reject ∧
      (parse (declared ++ bareSum)).primary.symbols
        = .nonterminal .expr :: (parse bareSum).primary.symbols ∧
      (parse (declared ++ declared)).verdict = .accept := by
  have hdeclared : (parse declared).primary.isAccepting = true := by
    decide +kernel
  have hsymbols : (parse declared).primary.symbols = [.nonterminal .expr] := by
    decide +kernel
  obtain ⟨hstack, -, hsum⟩ := parse_append declared bareSum hdeclared
  obtain ⟨-, -, htwice⟩ := parse_append declared declared hdeclared
  have hne : declared ≠ [] := by
    decide +kernel
  refine ⟨hdeclared, by decide +kernel, ?_, ?_, ?_⟩
  · exact (hsum hne).2.1 (by decide +kernel)
  · rw [hstack, hsymbols]
    rfl
  · exact (htwice hne).1.2 hdeclared

end Derivation
end CometLang
