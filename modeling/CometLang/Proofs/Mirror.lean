import CometLang.Proofs.Settling

/-!
# What holds in every state of a derivation

Tokens may be shifted, single productions fired and states reduced in any
order, in either mode. Whatever was done, the children of the tree's root mirror
the symbols on the stack, the leaves of the tree are the tokens shifted so far,
every phrase in the tree was formed by a production, and the symbols stand in
the first slots, of which there are as many as tokens. No operation can fail.
-/

namespace CometLang

open Derivation

/--
A tree in which every phrase was formed by a production: its children are
labelled with the symbols of a window that the right-hand side spans.
-/
inductive Tree.Derived : Tree → Prop
  | token
      (token : Token) :
      Tree.Derived (Tree.leaf token)
  | phrase
      {p : Production}
      {symbols : List Symbol}
      {children : List Tree}
      (hspans : p.rhs.Spans symbols)
      (hlabels : children.map Tree.label = symbols.map Symbol.label)
      (hchildren : ∀ t ∈ children, Tree.Derived t) :
      Tree.Derived (.node (.nonterminal p.lhs) children)

namespace Derivation

/-- What can be done to a state. -/
inductive Operation where
  | shift
  | step (mode : Mode)
  | reduce (mode : Mode)
deriving DecidableEq, Repr

namespace State

/-- The state after an operation; where nothing can be done it stays as it is. -/
def perform
    (s : State) :
    Operation → State
  | .shift => s.shift?.getD s
  | .step mode => ((s.step? mode).map Prod.fst).getD s
  | .reduce mode => (s.reduce mode).1

/-- Productions fire, so many and each with success, until none applies. -/
inductive Exhausts
    (mode : Mode) :
    State → State → Nat → Prop
  | done
      {s : State}
      (hnone : nextReduction? mode s.symbols = none) :
      Exhausts mode s s 0
  | fire
      {s next last : State}
      {p : Production}
      {r : Reduction}
      {count : Nat}
      (hsome : nextReduction? mode s.symbols = some (p, r))
      (hfire : s.fire? p r = some next)
      (hrest : Exhausts mode next last count) :
      Exhausts mode s last (count + 1)

/--
An operation finds what it needs: a token to be shifted has a free slot, the
production that is next to fire can be carried out on stack and tree, and
reducing is firing with success until no production applies.
-/
def Admits
    (s : State) :
    Operation → Prop
  | .shift => s.pending ≠ [] → s.stack.size < s.stack.capacity
  | .step mode =>
      ∀ p r, nextReduction? mode s.symbols = some (p, r) → ∃ next, s.fire? p r = some next
  | .reduce mode => Exhausts mode s (s.reduce mode).1 (s.reduce mode).2

/-- Stack and tree of a state belong together, and to the tokens of a program. -/
structure Mirrors
    (s : State)
    (tokens : List Token) : Prop where
  root : s.tree.label = .program
  labels : s.tree.children.map Tree.label = s.symbols.map Symbol.label
  leaves : s.tree.leaves ++ s.pending = tokens
  derived : ∀ t ∈ s.tree.children, t.Derived
  slots :
    s.stack.slots
      = s.symbols.map some ++ List.replicate (tokens.length - s.symbols.length) none
  size : s.stack.size = s.symbols.length
  capacity : s.stack.capacity = tokens.length

/-- The state carries limbs that were derived from the tokens before those to come. -/
structure Bears
    (s : State)
    (tokens : List Token)
    (limbs : List Limb) : Prop where
  carries : s.Carries tokens.length limbs
  leaves : Limb.leaves limbs ++ s.pending = tokens
  derived : ∀ t ∈ Limb.trees limbs, t.Derived

namespace Bears

variable {s : State} {tokens : List Token} {limbs : List Limb}

theorem start
    (tokens : List Token) :
    (State.start tokens).Bears tokens [] where
  carries := Carries.start tokens
  leaves := rfl
  derived := by
    simp

/-- Shifting a token adds a leaf. -/
theorem shift
    {token : Token}
    {rest : List Token}
    (h : s.Bears tokens limbs)
    (hpending : s.pending = token :: rest) :
    (s.shiftToken token rest).Bears tokens (limbs ++ [.leaf token]) := by
  refine ⟨h.carries.shiftToken hpending, ?_, ?_⟩
  · rw [← h.leaves, hpending]
    simp [State.shiftToken]
  · intro t ht
    simp only [Limb.trees_append, Limb.trees_cons, Limb.trees_nil, List.mem_append,
      List.mem_singleton] at ht
    rcases ht with ht | rfl
    · exact h.derived t ht
    · exact .token token

/-- A phrase over a window that its production spans is derived. -/
theorem derived_splice
    {mode : Mode}
    {p : Production}
    {r : Reduction}
    (hsome : nextReduction? mode (Limb.symbols limbs) = some (p, r))
    (hderived : ∀ t ∈ Limb.trees limbs, t.Derived) :
    ∀ t ∈ Limb.trees (Limb.splice limbs r), t.Derived := by
  obtain ⟨before, window, behind, rfl, rfl, happlies⟩ := Limb.nextReduction?_limbs hsome
  simp only [Limb.trees_append, List.mem_append] at hderived
  intro t ht
  rw [Limb.splice_append] at ht
  simp only [Limb.trees_append, Limb.trees_cons, List.mem_append, List.mem_cons] at ht
  rcases ht with ht | rfl | ht
  · exact hderived t (.inl (.inl ht))
  · refine .phrase happlies.spans (Limb.label_trees window) ?_
    intro child hchild
    exact hderived child (.inl (.inr hchild))
  · exact hderived t (.inr ht)

/-- Settling keeps the limbs derived from the same tokens. -/
theorem settle
    {mode : Mode}
    {guard : List Symbol → Bool}
    {next : State}
    {last : List Limb}
    (h : s.Bears tokens limbs)
    (hsettles : Limb.Settles mode guard limbs last)
    (hcarries : next.Carries tokens.length last)
    (hpending : next.pending = s.pending) :
    next.Bears tokens last := by
  refine ⟨hcarries, ?_, ?_⟩
  · rw [hsettles.leaves_eq, hpending]
    exact h.leaves
  · refine hsettles.preserves (P := fun current => ∀ t ∈ Limb.trees current, t.Derived)
      ?_ h.derived
    intro current p r hsome
    exact derived_splice hsome

/-- Reducing fires with success until no production applies. -/
theorem exhausts
    {mode : Mode}
    {guard : List Symbol → Bool}
    {capacity bound : Nat}
    {last : List Limb}
    (h : s.Carries capacity limbs)
    (hsettles : Limb.Settles mode guard limbs last)
    (hbound : Limb.weight limbs ≤ bound) :
    Exhausts mode s (State.reduceWithin mode bound s).1
      (State.reduceWithin mode bound s).2 := by
  induction hsettles generalizing s bound with
  | done _ hnone =>
      have hdone : Exhausts mode s s 0 :=
        .done (h.symbols_eq ▸ hnone)
      cases bound with
      | zero =>
          exact hdone
      | succ bound =>
          simp only [State.reduceWithin, h.step?_eq_none hnone]
          exact hdone
  | fire _ hsome _ ih =>
      have hlt := Limb.weight_splice_lt hsome
      obtain ⟨s', hfire, hstep, hcarries, _⟩ := h.step?_eq_some hsome
      cases bound with
      | zero =>
          omega
      | succ bound =>
          simp only [State.reduceWithin, hstep]
          exact .fire (h.symbols_eq ▸ hsome) hfire (ih hcarries (by omega))

/-- Every operation finds what it needs. -/
theorem admits
    (h : s.Bears tokens limbs)
    (operation : Operation) :
    s.Admits operation := by
  cases operation with
  | shift =>
      intro hpending
      have hroom := h.carries.room
      have hpos := List.length_pos_iff.2 hpending
      simp only [h.carries.stack, Stack.packed, Stack.capacity, List.length_append,
        List.length_map, List.length_replicate, Limb.length_symbols]
      omega
  | step mode =>
      intro p r hsome
      rw [h.carries.symbols_eq] at hsome
      obtain ⟨next, hfire, _⟩ := h.carries.step?_eq_some hsome
      exact ⟨next, hfire⟩
  | reduce mode =>
      obtain ⟨last, hsettles⟩ := Limb.exists_settles mode limbs
      exact exhausts h.carries hsettles (Nat.le_of_eq h.carries.weight_eq.symm)

/-- After an operation the state again carries limbs derived from the tokens. -/
theorem perform
    (h : s.Bears tokens limbs)
    (operation : Operation) :
    ∃ last, (s.perform operation).Bears tokens last := by
  cases operation with
  | shift =>
      cases hpending : s.pending with
      | nil =>
          refine ⟨limbs, ?_⟩
          simpa [State.perform, State.shift?, hpending] using h
      | cons token rest =>
          refine ⟨limbs ++ [.leaf token], ?_⟩
          simpa [State.perform, State.shift?, hpending] using h.shift hpending
  | step mode =>
      cases hnext : nextReduction? mode (Limb.symbols limbs) with
      | none =>
          refine ⟨limbs, ?_⟩
          simpa [State.perform, h.carries.step?_eq_none hnext] using h
      | some found =>
          obtain ⟨p, r⟩ := found
          obtain ⟨next, _, hstep, hcarries, hpending⟩ := h.carries.step?_eq_some hnext
          refine ⟨Limb.splice limbs r, ?_⟩
          simp only [State.perform, hstep, Option.map_some, Option.getD_some]
          refine ⟨hcarries, ?_, derived_splice hnext h.derived⟩
          obtain ⟨before, window, behind, rfl, rfl, _⟩ := Limb.nextReduction?_limbs hnext
          rw [Limb.splice_append, hpending, ← h.leaves]
          simp
  | reduce mode =>
      obtain ⟨last, hsettles⟩ := Limb.exists_settles mode limbs
      obtain ⟨hcarries, hpending⟩ := h.carries.reduce hsettles
      exact ⟨last, h.settle hsettles hcarries hpending⟩

/-- After any operations the state carries limbs derived from the tokens. -/
theorem performAll
    (h : s.Bears tokens limbs)
    (operations : List Operation) :
    ∃ last, (operations.foldl State.perform s).Bears tokens last := by
  induction operations generalizing s limbs with
  | nil =>
      exact ⟨limbs, h⟩
  | cons operation operations ih =>
      obtain ⟨next, hnext⟩ := h.perform operation
      exact ih hnext

/-- The limbs fix what stack and tree look like. -/
theorem mirrors
    (h : s.Bears tokens limbs) :
    s.Mirrors tokens := by
  have hsymbols := h.carries.symbols_eq
  have hroom := h.carries.room
  refine ⟨?_, ?_, ?_, ?_, ?_, ?_, ?_⟩
  · rw [h.carries.tree, Tree.label]
  · rw [hsymbols, h.carries.tree, Tree.children]
    exact Limb.label_trees limbs
  · rw [h.carries.tree]
    simpa [Tree.leaves, Label.token?, Limb.leaves] using h.leaves
  · rw [h.carries.tree, Tree.children]
    exact h.derived
  · rw [hsymbols, h.carries.stack, Stack.packed]
  · rw [hsymbols, h.carries.stack, Stack.packed]
  · simp only [h.carries.stack, Stack.packed, Stack.capacity, List.length_append,
      List.length_map, List.length_replicate, Limb.length_symbols]
    omega

end Bears

/--
After any sequence of operations, each in any mode, stack and tree mirror each
other, the leaves are the tokens shifted so far, every phrase was formed by a
production, the slots are packed, and every operation that may come next finds
what it needs.
-/
theorem mirrors_and_admits_after
    (tokens : List Token)
    (operations : List Operation) :
    (operations.foldl perform (start tokens)).Mirrors tokens ∧
      ∀ operation, (operations.foldl perform (start tokens)).Admits operation := by
  obtain ⟨limbs, hbears⟩ := (Bears.start tokens).performAll operations
  exact ⟨hbears.mirrors, hbears.admits⟩

end State
end Derivation
end CometLang
