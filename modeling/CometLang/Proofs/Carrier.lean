import CometLang.Derivation.Parse
import CometLang.Proofs.Limb
import CometLang.Proofs.Packing

/-!
# States that carry limbs

A state carries limbs if its slots are packed with their symbols and its tree
has their trees below the root. Shifting a token adds a leaf to the limbs, and
firing a production splices them; neither can fail. A reduction makes the
symbols lighter, so that reducing comes to an end with nothing left to fire.
-/

namespace CometLang

open Derivation

/-! ## Weights -/

namespace Expect

/-- A lower bound for the weight of what may stand at a place. -/
def minWeight : Expect → Nat
  | kind _ | relational | logical | additive | multiplicative => 5
  | form n => (Symbol.nonterminal n).weight
  | operand | ioArgument | condition => 4
  | value | item => 1

/-- The lower bounds of several places add up. -/
def minWeights : List Expect → Nat
  | [] => 0
  | place :: places => place.minWeight + minWeights places

/-- What stands at a place is as heavy as the bound says. -/
theorem minWeight_le
    {place : Expect}
    {s : Symbol}
    (h : place.admits s = true) :
    place.minWeight ≤ s.weight := by
  cases s with
  | terminal token =>
      cases place <;> simp_all [admits, minWeight, Symbol.weight, Symbol.isForm, Symbol.form?]
  | nonterminal other =>
      cases place with
      | form n =>
          obtain rfl : other = n := by
            simpa [admits, Symbol.isForm, Symbol.form?] using h
          exact Nat.le_refl _
      | kind k =>
          simp [admits, Symbol.isKind, Symbol.kind?] at h
      | _ =>
          revert h
          cases other <;> decide

/-- A window of a fixed right-hand side is as heavy as its places say. -/
theorem minWeights_le
    {places : List Expect}
    {window : List Symbol}
    (h : (Rhs.sequence places).Spans window) :
    minWeights places ≤ symbolsWeight window := by
  induction h with
  | nil =>
      simp [minWeights]
  | cons hadmits _ ih =>
      have hfirst := minWeight_le hadmits
      simp only [minWeights, symbolsWeight]
      omega

end Expect

namespace Production

/-- Every production makes the symbols lighter. -/
theorem weight_lhs_lt
    {p : Production}
    {window : List Symbol}
    (h : p.rhs.Spans window) :
    (Symbol.nonterminal p.lhs).weight < symbolsWeight window := by
  cases hrhs : p.rhs with
  | sequence places =>
      rw [hrhs] at h
      have hle := Expect.minWeights_le h
      have hlt : (Symbol.nonterminal p.lhs).weight < Expect.minWeights places := by
        revert hrhs
        cases p <;> rintro ⟨rfl⟩ <;> decide
      omega
  | chain =>
      rw [hrhs] at h
      obtain ⟨count, rfl⟩ := h
      have hlhs : p.lhs = .logicalExp := by
        revert hrhs
        cases p <;> rintro ⟨⟩
        rfl
      rw [hlhs, Rhs.chainOf, List.replicate_succ, List.flatten_cons]
      simp only [List.cons_append, List.nil_append, symbolsWeight, Symbol.weight]
      omega
  | block =>
      rw [hrhs] at h
      obtain ⟨opening, closing, count, _, _, rfl⟩ := h
      have hlhs : p.lhs = .stmt := by
        revert hrhs
        cases p <;> rintro ⟨⟩
        rfl
      rw [hlhs, Rhs.blockOf, List.replicate_succ]
      simp only [List.cons_append, symbolsWeight, Symbol.weight]
      omega

end Production

/-! ## States -/

namespace Limb

/-- The weight of the limbs' symbols. -/
def weight (limbs : List Limb) : Nat :=
  symbolsWeight (symbols limbs)

/-- Splicing the window of the next reduction makes the limbs lighter. -/
theorem weight_splice_lt
    {mode : Mode}
    {limbs : List Limb}
    {p : Production}
    {r : Reduction}
    (h : nextReduction? mode (symbols limbs) = some (p, r)) :
    weight (splice limbs r) < weight limbs := by
  obtain ⟨before, window, behind, rfl, rfl, happlies⟩ := nextReduction?_limbs h
  have hlt := Production.weight_lhs_lt happlies.spans
  rw [splice_append]
  simp only [weight, symbols_append, symbols_cons, symbol_phrase, symbolsWeight_append,
    symbolsWeight]
  omega

end Limb

namespace Derivation
namespace State

/--
The stack of the state is packed with the symbols of the limbs, its tree has
their trees below the root, and the tokens to come fit into the free slots.
-/
structure Carries
    (s : State)
    (capacity : Nat)
    (limbs : List Limb) : Prop where
  stack : s.stack = Stack.packed capacity (Limb.symbols limbs)
  tree : s.tree = .node .program (Limb.trees limbs)
  room : limbs.length + s.pending.length ≤ capacity

namespace Carries

variable {s : State} {capacity : Nat} {limbs : List Limb}

theorem symbols_eq
    (h : s.Carries capacity limbs) :
    s.symbols = Limb.symbols limbs := by
  rw [symbols, h.stack, Stack.symbols_packed]

/-- The stack is as heavy as the limbs. -/
theorem weight_eq
    (h : s.Carries capacity limbs) :
    s.stack.weight = Limb.weight limbs := by
  rw [Stack.weight, h.stack, Stack.symbols_packed, Limb.weight]

/-- At the start there are no limbs. -/
theorem start
    (tokens : List Token) :
    (State.start tokens).Carries tokens.length [] where
  stack := Stack.withCapacity_eq_packed tokens.length
  tree := rfl
  room := by
    simp [State.start]

/-- A shifted token becomes the last limb. -/
theorem shiftToken
    {token : Token}
    {rest : List Token}
    (h : s.Carries capacity limbs)
    (hpending : s.pending = token :: rest) :
    (s.shiftToken token rest).Carries capacity (limbs ++ [.leaf token]) := by
  have hroom := h.room
  rw [hpending, List.length_cons] at hroom
  have hfree : (Limb.symbols limbs).length < capacity := by
    rw [Limb.length_symbols]
    omega
  refine ⟨?_, ?_, ?_⟩
  · simp only [State.shiftToken, h.stack]
    rw [Stack.push_packed _ hfree]
    simp
  · simp [State.shiftToken, h.tree, Tree.addChild, Tree.label, Tree.children]
  · simp only [State.shiftToken, List.length_append, List.length_singleton]
    omega

/-- Firing a production on a window splices the limbs. -/
theorem fire?
    {before window behind : List Limb}
    (h : s.Carries capacity (before ++ window ++ behind))
    (p : Production)
    (lhs : Nonterminal)
    (hwindow : window ≠ []) :
    ∃ s',
      s.fire? p ⟨before.length, window.length, lhs⟩ = some s' ∧
        s'.Carries capacity (before ++ .phrase lhs window :: behind) ∧
        s'.pending = s.pending := by
  have hroom := h.room
  have hpos : 0 < window.length :=
    List.length_pos_iff.2 hwindow
  have hstack :
      s.stack.reduce? before.length window.length lhs
        = some (Stack.packed capacity
            (Limb.symbols (before ++ .phrase lhs window :: behind))) := by
    have hreduce :=
      Stack.reduce?_packed capacity (Limb.symbols before)
        (Limb.symbols window) (Limb.symbols behind) lhs
        (by simpa [Limb.symbols] using hwindow)
        (by
          simp only [List.length_append, Limb.length_symbols] at hroom ⊢
          omega)
    simpa [h.stack] using hreduce
  have htree :
      s.tree.collapse? before.length window.length lhs
        = some (.node .program (Limb.trees (before ++ .phrase lhs window :: behind))) := by
    have htake :
        (Limb.trees before ++ (Limb.trees window ++ Limb.trees behind)).take before.length
          = Limb.trees before :=
      List.take_left' (by simp)
    have hdrop :
        (Limb.trees before ++ (Limb.trees window ++ Limb.trees behind)).drop before.length
          = Limb.trees window ++ Limb.trees behind :=
      List.drop_left' (by simp)
    have hgathered :
        (Limb.trees window ++ Limb.trees behind).take window.length
          = Limb.trees window :=
      List.take_left' (by simp)
    have hrest :
        (Limb.trees window ++ Limb.trees behind).drop window.length
          = Limb.trees behind :=
      List.drop_left' (by simp)
    simp [h.tree, Tree.collapse?, Tree.label, Tree.children, htake, hdrop, hgathered,
      ← List.drop_drop, hrest]
  simp only [State.fire?, hstack, htree, Option.bind_eq_bind, Option.bind_some]
  refine ⟨_, rfl, ⟨rfl, rfl, ?_⟩, rfl⟩
  simp only [List.length_append, List.length_cons] at hroom ⊢
  omega

/-- A state on which no production applies does not step. -/
theorem step?_eq_none
    {mode : Mode}
    (h : s.Carries capacity limbs)
    (hnone : nextReduction? mode (Limb.symbols limbs) = none) :
    s.step? mode = none := by
  simp [State.step?, h.symbols_eq, hnone]

/-- A state on which a production applies steps, and its limbs are spliced. -/
theorem step?_eq_some
    {mode : Mode}
    {p : Production}
    {r : Reduction}
    (h : s.Carries capacity limbs)
    (hsome : nextReduction? mode (Limb.symbols limbs) = some (p, r)) :
    ∃ s',
      s.fire? p r = some s' ∧ s.step? mode = some (s', r) ∧
        s'.Carries capacity (Limb.splice limbs r) ∧ s'.pending = s.pending := by
  have hsymbols := h.symbols_eq
  obtain ⟨before, window, behind, rfl, rfl, happlies⟩ := Limb.nextReduction?_limbs hsome
  have hwindow : window ≠ [] := by
    rintro rfl
    exact Production.spans_ne_nil happlies.spans rfl
  obtain ⟨s', hfire, hcarries, hpending⟩ := h.fire? p p.lhs hwindow
  refine ⟨s', hfire, ?_, ?_, hpending⟩
  · rw [State.step?, hsymbols, hsome]
    simp [hfire]
  · rw [Limb.splice_append]
    exact hcarries

end Carries
end State
end Derivation
end CometLang
