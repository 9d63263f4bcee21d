import CometLang.Proofs.Carrier

/-!
# Settling and reading

Limbs settle when productions are fired on them until none applies. Reading a
token adds it as a leaf and lets the limbs settle. Both are relations here, and
the functions of the derivation follow them: reducing a state that carries limbs
ends in a state that carries what they settle to.

A relation may be watched by a guard, a property of the symbols that holds
whenever the search for the next reduction looks at them. What is read under a
guard can be read in the same way behind other symbols, provided that the guard
keeps the two apart.
-/

namespace CometLang

open Derivation

namespace Limb

/-- The guard that lets everything pass. -/
def unguarded (_ : List Symbol) : Bool :=
  true

/-- Productions are fired under a guard until none applies. -/
inductive Settles
    (mode : Mode)
    (guard : List Symbol → Bool) :
    List Limb → List Limb → Prop
  | done
      {limbs : List Limb}
      (hguard : guard (symbols limbs) = true)
      (hnone : nextReduction? mode (symbols limbs) = none) :
      Settles mode guard limbs limbs
  | fire
      {limbs last : List Limb}
      {p : Production}
      {r : Reduction}
      (hguard : guard (symbols limbs) = true)
      (hsome : nextReduction? mode (symbols limbs) = some (p, r))
      (hrest : Settles mode guard (splice limbs r) last) :
      Settles mode guard limbs last

namespace Settles

variable {mode : Mode} {guard : List Symbol → Bool} {limbs last : List Limb}

/-- What limbs settle to is settled. -/
theorem nextReduction?_last
    (h : Settles mode guard limbs last) :
    nextReduction? mode (symbols last) = none := by
  induction h with
  | done _ hnone =>
      exact hnone
  | fire _ _ _ ih =>
      exact ih

/-- What every reduction keeps is kept by settling. -/
theorem preserves
    {P : List Limb → Prop}
    (hstep :
      ∀ limbs p r, nextReduction? mode (symbols limbs) = some (p, r) →
        P limbs → P (splice limbs r))
    (h : Settles mode guard limbs last) :
    P limbs → P last := by
  induction h with
  | done =>
      exact id
  | fire _ hsome _ ih =>
      intro hP
      exact ih (hstep _ _ _ hsome hP)

/-- Settling does not change the tokens below the limbs. -/
theorem leaves_eq
    (h : Settles mode guard limbs last) :
    leaves last = leaves limbs := by
  refine h.preserves (P := fun current => leaves current = leaves limbs) ?_ rfl
  intro current p r hsome hleaves
  obtain ⟨before, window, behind, rfl, rfl, _⟩ := nextReduction?_limbs hsome
  rw [splice_append, ← hleaves]
  simp

/-- What limbs settle to settles to itself. -/
theorem again
    (h : Settles mode guard limbs last) :
    Settles mode guard last last := by
  induction h with
  | done hguard hnone =>
      exact .done hguard hnone
  | fire _ _ _ ih =>
      exact ih

/-- Limbs settle in one way only. -/
theorem unique
    {other : List Symbol → Bool}
    {last' : List Limb}
    (h : Settles mode guard limbs last)
    (h' : Settles mode other limbs last') :
    last = last' := by
  induction h with
  | done _ hnone =>
      cases h' with
      | done =>
          rfl
      | fire _ hsome _ =>
          rw [hnone] at hsome
          cases hsome
  | fire _ hsome _ ih =>
      cases h' with
      | done _ hnone =>
          rw [hnone] at hsome
          cases hsome
      | fire _ hsome' hrest =>
          rw [hsome] at hsome'
          cases hsome'
          exact ih hrest

end Settles

/-- All limbs settle, because firing makes them lighter. -/
theorem exists_settles
    (mode : Mode)
    (limbs : List Limb) :
    ∃ last, Settles mode unguarded limbs last := by
  induction hweight : weight limbs using Nat.strongRecOn generalizing limbs with
  | _ bound ih =>
      cases hnext : nextReduction? mode (symbols limbs) with
      | none =>
          exact ⟨limbs, .done rfl hnext⟩
      | some found =>
          obtain ⟨p, r⟩ := found
          have hlt := weight_splice_lt hnext
          obtain ⟨last, hlast⟩ := ih _ (hweight ▸ hlt) (splice limbs r) rfl
          exact ⟨last, .fire rfl hnext hlast⟩

/-- Tokens are added one by one, and the limbs settle after each of them. -/
inductive Reads
    (guard : List Symbol → Bool) :
    List Limb → List Token → List Limb → Prop
  | nil
      {limbs : List Limb} :
      Reads guard limbs [] limbs
  | cons
      {limbs next last : List Limb}
      {token : Token}
      {rest : List Token}
      (hfirst : Settles .primary guard (limbs ++ [.leaf token]) next)
      (hrest : Reads guard next rest last) :
      Reads guard limbs (token :: rest) last

namespace Reads

variable {guard : List Symbol → Bool} {limbs next last : List Limb}

/-- One token is read by settling once. -/
theorem single
    {token : Token}
    (h : Settles .primary guard (limbs ++ [.leaf token]) last) :
    Reads guard limbs [token] last :=
  .cons h .nil

/-- Tokens are read one list after the other. -/
theorem append
    {first second : List Token}
    (hfirst : Reads guard limbs first next)
    (hsecond : Reads guard next second last) :
    Reads guard limbs (first ++ second) last := by
  induction hfirst with
  | nil =>
      exact hsecond
  | cons hsettles _ ih =>
      exact .cons hsettles (ih hsecond)

/-- What is read into settled limbs leaves them settled. -/
theorem nextReduction?_last
    {tokens : List Token}
    (h : Reads guard limbs tokens last)
    (hlimbs : nextReduction? .primary (symbols limbs) = none) :
    nextReduction? .primary (symbols last) = none := by
  induction h with
  | nil =>
      exact hlimbs
  | cons hsettles _ ih =>
      exact ih hsettles.nextReduction?_last

/-- The tokens read are found below the limbs, behind those from before. -/
theorem leaves_eq
    {tokens : List Token}
    (h : Reads guard limbs tokens last) :
    leaves last = leaves limbs ++ tokens := by
  induction h with
  | nil =>
      simp
  | cons hsettles _ ih =>
      rw [ih, hsettles.leaves_eq]
      simp

end Reads

/-- Every list of tokens can be read. -/
theorem exists_reads
    (limbs : List Limb)
    (tokens : List Token) :
    ∃ last, Reads unguarded limbs tokens last := by
  induction tokens generalizing limbs with
  | nil =>
      exact ⟨limbs, .nil⟩
  | cons token rest ih =>
      obtain ⟨next, hnext⟩ := exists_settles .primary (limbs ++ [.leaf token])
      obtain ⟨last, hlast⟩ := ih next
      exact ⟨last, .cons hnext hlast⟩

end Limb

namespace Derivation
namespace State

variable {s : State} {capacity : Nat} {limbs last : List Limb}

/-- Reducing within a bound that is not below the weight lets the limbs settle. -/
theorem Carries.reduceWithin
    {mode : Mode}
    {guard : List Symbol → Bool}
    {bound : Nat}
    (h : s.Carries capacity limbs)
    (hsettles : Limb.Settles mode guard limbs last)
    (hbound : Limb.weight limbs ≤ bound) :
    (State.reduceWithin mode bound s).1.Carries capacity last ∧
      (State.reduceWithin mode bound s).1.pending = s.pending := by
  induction hsettles generalizing s bound with
  | done _ hnone =>
      cases bound with
      | zero =>
          exact ⟨h, rfl⟩
      | succ bound =>
          simp only [State.reduceWithin, h.step?_eq_none hnone]
          exact ⟨h, trivial⟩
  | fire _ hsome _ ih =>
      have hlt := Limb.weight_splice_lt hsome
      obtain ⟨s', _, hstep, hcarries, hpending⟩ := h.step?_eq_some hsome
      cases bound with
      | zero =>
          omega
      | succ bound =>
          simp only [State.reduceWithin, hstep]
          rw [← hpending]
          exact ih hcarries (by omega)

/-- Reducing lets the limbs settle. -/
theorem Carries.reduce
    {mode : Mode}
    {guard : List Symbol → Bool}
    (h : s.Carries capacity limbs)
    (hsettles : Limb.Settles mode guard limbs last) :
    (s.reduce mode).1.Carries capacity last ∧
      (s.reduce mode).1.pending = s.pending :=
  h.reduceWithin hsettles (Nat.le_of_eq h.weight_eq.symm)

/-- Feeding tokens to a state reads them into its limbs. -/
theorem Carries.feed
    {guard : List Symbol → Bool}
    {tokens : List Token}
    (h : s.Carries capacity limbs)
    (hpending : s.pending = tokens)
    (hreads : Limb.Reads guard limbs tokens last) :
    (s.feed tokens).Carries capacity last ∧ (s.feed tokens).pending = [] := by
  induction hreads generalizing s with
  | nil =>
      exact ⟨h, hpending⟩
  | cons hsettles _ ih =>
      have hreduced := (h.shiftToken hpending).reduce hsettles
      simp only [State.feed]
      exact ih hreduced.1 hreduced.2

/-- All tokens are read and the limbs are settled: nothing is left to be done. -/
theorem settle_carries
    {guard : List Symbol → Bool}
    {tokens : List Token}
    (hreads : Limb.Reads guard [] tokens last)
    (hlast : nextReduction? .primary (Limb.symbols last) = none) :
    (State.start tokens).settle.Carries tokens.length last := by
  have hfed := (Carries.start tokens).feed rfl hreads
  have hsettled : Limb.Settles .primary Limb.unguarded last last :=
    .done rfl hlast
  exact (hfed.1.reduce hsettled).1

/-- The limbs do not change when the verdict is recorded. -/
theorem Carries.close
    (h : s.Carries capacity limbs)
    (v : Verdict) :
    (s.close v).Carries capacity limbs :=
  ⟨h.stack, h.tree, h.room⟩

/-- The symbols at hand are one arithmetic expression if the limbs are. -/
theorem Carries.isSingleArithmetic_iff
    (h : s.Carries capacity limbs) :
    s.isSingleArithmetic = true ↔
      ∃ limb, limbs = [limb] ∧ limb.symbol = .nonterminal .arithExp := by
  rw [State.isSingleArithmetic, h.symbols_eq]
  match limbs with
  | [] =>
      simp
  | [limb] =>
      simp [Symbol.isForm_iff]
  | _ :: _ :: _ =>
      simp

end State

theorem primary_parse
    (tokens : List Token) :
    (parse tokens).primary = (State.start tokens).settle := by
  simp only [parse]
  split
  · rfl
  · split
    · rfl
    · rfl

/-- A program is accepted at the first attempt or at the second. -/
theorem verdict_parse
    (tokens : List Token) :
    (parse tokens).verdict = .accept ↔
      (parse tokens).primary.isAccepting = true ∨
        ((parse tokens).primary.reduce .fallback).1.isSingleArithmetic = true := by
  rw [primary_parse, parse]
  by_cases haccepting : (State.start tokens).settle.isAccepting = true
  · simp [haccepting]
  · by_cases hsingle :
        ((State.start tokens).settle.reduce .fallback).1.isSingleArithmetic = true
    · simp [haccepting, hsingle]
    · simp [haccepting, hsingle]

/-- The verdict is about the first attempt, unless the second one is needed and succeeds. -/
theorem state_parse
    (tokens : List Token) :
    (parse tokens).state = (parse tokens).primary.close (parse tokens).verdict ∨
      (parse tokens).primary.isAccepting = false ∧
        ((parse tokens).primary.reduce .fallback).1.isSingleArithmetic = true ∧
        (parse tokens).state
          = ((parse tokens).primary.reduce .fallback).1.close (parse tokens).verdict := by
  rw [primary_parse, parse]
  by_cases haccepting : (State.start tokens).settle.isAccepting = true
  · simp [haccepting]
  · by_cases hsingle :
        ((State.start tokens).settle.reduce .fallback).1.isSingleArithmetic = true
    · simp [haccepting, hsingle]
    · simp [haccepting, hsingle]

variable {tokens : List Token} {limbs last : List Limb}

/-- Tokens that are read as whole items are accepted. -/
theorem parse_of_accepting
    {guard : List Symbol → Bool}
    (hreads : Limb.Reads guard [] tokens limbs)
    (haccepting : (Limb.symbols limbs).all Symbol.isAccepting = true) :
    (parse tokens).verdict = .accept ∧
      (parse tokens).state.Carries tokens.length limbs := by
  have hcarries := State.settle_carries hreads (hreads.nextReduction?_last rfl)
  have hprimary : (State.start tokens).settle.isAccepting = true := by
    rw [State.isAccepting, hcarries.symbols_eq]
    exact haccepting
  rw [parse, if_pos hprimary]
  exact ⟨rfl, hcarries.close .accept⟩

/--
Tokens that are not read as whole items are accepted if, with the end of the
program settled, they are one arithmetic expression, and not otherwise.
-/
theorem parse_of_not_accepting
    {guard guard' : List Symbol → Bool}
    (hreads : Limb.Reads guard [] tokens limbs)
    (haccepting : (Limb.symbols limbs).all Symbol.isAccepting = false)
    (hsettles : Limb.Settles .fallback guard' limbs last) :
    ((parse tokens).verdict = .accept ↔
        ∃ limb, last = [limb] ∧ limb.symbol = .nonterminal .arithExp) ∧
      ((parse tokens).verdict = .accept →
        (parse tokens).state.Carries tokens.length last) := by
  have hcarries := State.settle_carries hreads (hreads.nextReduction?_last rfl)
  have hattempt := (hcarries.reduce hsettles).1
  have hprimary : (State.start tokens).settle.isAccepting ≠ true := by
    rw [State.isAccepting, hcarries.symbols_eq, haccepting]
    simp
  rw [parse, if_neg hprimary, ← hattempt.isSingleArithmetic_iff]
  by_cases hsingle :
      ((State.start tokens).settle.reduce .fallback).1.isSingleArithmetic = true
  · simp only [hsingle, if_true, true_and]
    exact fun _ => hattempt.close .accept
  · simp [hsingle]

end Derivation
end CometLang
