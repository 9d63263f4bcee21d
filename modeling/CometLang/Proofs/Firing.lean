import CometLang.Proofs.Mirror

/-!
# How often productions fire

Most productions have a window of one symbol, so that the number of symbols
says nothing about how long reducing goes on. Their weight does: a token weighs
five, and every production that fires leaves the symbols lighter, whatever stands
around its window.

Tokens may be shifted, single productions fired and states reduced in any order,
in either mode. Each token that is shifted pays for five productions. So every
reduction to the end does end, and productions fire at most five times as often
as tokens are shifted. Parsing is one such sequence, a second attempt included.
-/

namespace CometLang
namespace Derivation
namespace State

/-- How many productions an operation fires. -/
def firings
    (s : State) :
    Operation → Nat
  | .shift => 0
  | .step mode => if (s.step? mode).isSome then 1 else 0
  | .reduce mode => (s.reduce mode).2

/-- How many tokens an operation shifts. -/
def shifts
    (s : State) :
    Operation → Nat
  | .shift => if s.shift?.isSome then 1 else 0
  | .step _ | .reduce _ => 0

/-- What operations come to, each counted in the state in which it is performed. -/
def tally
    (count : State → Operation → Nat) :
    State → List Operation → Nat
  | _, [] => 0
  | s, operation :: rest => count s operation + tally count (s.perform operation) rest

/-- How many reductions the trace records. -/
def reductions (s : State) : Nat :=
  s.trace.countP (·.production?.isSome)

/-! ## Tokens and records -/

section

variable {s next : State} {p : Production} {r : Reduction}

/-- What fires leaves a record, and no token is touched. -/
theorem reductions_of_fire?
    (h : s.fire? p r = some next) :
    next.reductions = s.reductions + 1 ∧ next.pending = s.pending := by
  simp only [fire?, Option.bind_eq_bind, Option.bind_eq_some_iff] at h
  obtain ⟨stack, -, tree, -, hnext⟩ := h
  obtain rfl := Option.some.inj hnext
  exact ⟨by simp [reductions, Record.production?], rfl⟩

theorem reductions_of_step?
    {mode : Mode}
    (h : s.step? mode = some (next, r)) :
    next.reductions = s.reductions + 1 ∧ next.pending = s.pending := by
  simp only [step?, Option.bind_eq_bind, Option.bind_eq_some_iff] at h
  obtain ⟨⟨p, r'⟩, -, fired, hfire, hnext⟩ := h
  obtain ⟨rfl, rfl⟩ := Prod.mk.inj (Option.some.inj hnext)
  exact reductions_of_fire? hfire

end

/-- Reducing leaves as many records as it counts, by induction on its bound. -/
theorem reductions_reduceWithin
    (mode : Mode)
    (bound : Nat)
    (s : State) :
    (reduceWithin mode bound s).1.reductions
        = s.reductions + (reduceWithin mode bound s).2 ∧
      (reduceWithin mode bound s).1.pending = s.pending := by
  induction bound generalizing s with
  | zero =>
      exact ⟨rfl, rfl⟩
  | succ bound ih =>
      rw [reduceWithin]
      cases hstep : s.step? mode with
      | none =>
          exact ⟨rfl, rfl⟩
      | some found =>
          obtain ⟨next, r⟩ := found
          obtain ⟨hreductions, hpending⟩ := reductions_of_step? hstep
          obtain ⟨hcount, hrest⟩ := ih next
          refine ⟨?_, hrest.trans hpending⟩
          dsimp only
          omega

theorem reductions_perform
    (s : State)
    (operation : Operation) :
    (s.perform operation).reductions = s.reductions + s.firings operation := by
  cases operation with
  | shift =>
      rw [perform, shift?]
      cases s.pending with
      | nil =>
          rfl
      | cons token rest =>
          simp [reductions, firings, shiftToken, Record.production?]
  | step mode =>
      rw [perform, firings]
      cases hstep : s.step? mode with
      | none =>
          rfl
      | some found =>
          exact (reductions_of_step? hstep).1
  | reduce mode =>
      exact (reductions_reduceWithin mode s.stack.weight s).1

theorem shifts_perform
    (s : State)
    (operation : Operation) :
    s.shifts operation + (s.perform operation).pending.length = s.pending.length := by
  cases operation with
  | shift =>
      rw [shifts, perform, shift?]
      cases hpending : s.pending with
      | nil =>
          simp [hpending]
      | cons token rest =>
          simp [shiftToken, Nat.add_comm]
  | step mode =>
      rw [shifts, perform, Nat.zero_add]
      cases hstep : s.step? mode with
      | none =>
          rfl
      | some found =>
          exact congrArg List.length (reductions_of_step? hstep).2
  | reduce mode =>
      rw [shifts, Nat.zero_add]
      exact congrArg List.length (reductions_reduceWithin mode s.stack.weight s).2

/-- The trace records every production that fired, and nothing else as fired. -/
theorem reductions_performAll
    (s : State)
    (operations : List Operation) :
    (operations.foldl perform s).reductions = s.reductions + tally firings s operations := by
  induction operations generalizing s with
  | nil =>
      rfl
  | cons operation operations ih =>
      rw [List.foldl_cons, ih, reductions_perform, tally, Nat.add_assoc]

/-- A token is either shifted or still to come. -/
theorem shifts_performAll
    (s : State)
    (operations : List Operation) :
    tally shifts s operations + (operations.foldl perform s).pending.length
      = s.pending.length := by
  induction operations generalizing s with
  | nil =>
      simp [tally]
  | cons operation operations ih =>
      rw [List.foldl_cons, tally, Nat.add_assoc, ih, shifts_perform]

/-! ## Weights -/

/-- What fires until nothing applies is paid for by the weight that is lost. -/
theorem Exhausts.weight_le
    {mode : Mode}
    {s last : State}
    {count capacity : Nat}
    {limbs : List Limb}
    (h : Exhausts mode s last count)
    (hcarries : s.Carries capacity limbs) :
    count + last.stack.weight ≤ s.stack.weight := by
  induction h generalizing limbs with
  | done =>
      simp
  | fire hsome hfire _ ih =>
      rw [hcarries.symbols_eq] at hsome
      obtain ⟨next, hnext, _, hspliced, _⟩ := hcarries.step?_eq_some hsome
      obtain rfl := Option.some.inj (hfire.symm.trans hnext)
      have hlt := Limb.weight_splice_lt hsome
      have hrest := ih hspliced
      rw [hspliced.weight_eq] at hrest
      rw [hcarries.weight_eq]
      omega

namespace Bears

variable {s : State} {tokens : List Token} {limbs : List Limb}

/-- A shifted token pays for five productions, and what fires is paid for. -/
theorem firings_add_weight_le
    (h : s.Bears tokens limbs)
    (operation : Operation) :
    s.firings operation + (s.perform operation).stack.weight
      ≤ s.stack.weight + 5 * s.shifts operation := by
  cases operation with
  | shift =>
      cases hpending : s.pending with
      | nil =>
          simp [State.firings, State.shifts, State.perform, State.shift?, hpending]
      | cons token rest =>
          have hshifted := h.carries.shiftToken hpending
          simp only [State.firings, State.shifts, State.perform, State.shift?, hpending,
            Option.getD_some, Option.isSome_some, if_true]
          rw [hshifted.weight_eq, h.carries.weight_eq]
          simp [Limb.weight, symbolsWeight, Symbol.weight]
  | step mode =>
      cases hnext : nextReduction? mode (Limb.symbols limbs) with
      | none =>
          simp [State.firings, State.shifts, State.perform, h.carries.step?_eq_none hnext]
      | some found =>
          obtain ⟨p, r⟩ := found
          obtain ⟨next, _, hstep, hspliced, _⟩ := h.carries.step?_eq_some hnext
          have hlt := Limb.weight_splice_lt hnext
          simp only [State.firings, State.shifts, State.perform, hstep, Option.map_some,
            Option.getD_some, Option.isSome_some, if_true]
          rw [hspliced.weight_eq, h.carries.weight_eq]
          omega
  | reduce mode =>
      exact Exhausts.weight_le (h.admits (.reduce mode)) h.carries

/-- Over a whole sequence the tokens pay for what fires. -/
theorem tally_firings_add_weight_le
    (h : s.Bears tokens limbs)
    (operations : List Operation) :
    tally firings s operations + (operations.foldl State.perform s).stack.weight
      ≤ s.stack.weight + 5 * tally shifts s operations := by
  induction operations generalizing s limbs with
  | nil =>
      simp [tally]
  | cons operation operations ih =>
      obtain ⟨next, hnext⟩ := h.perform operation
      have hfirst := h.firings_add_weight_le operation
      have hrest := ih hnext
      rw [List.foldl_cons, tally, tally]
      omega

end Bears

theorem tally_firings_le
    (tokens : List Token)
    (operations : List Operation) :
    tally firings (start tokens) operations ≤ 5 * tally shifts (start tokens) operations := by
  have hpaid := (Bears.start tokens).tally_firings_add_weight_le operations
  have hstart : (start tokens).stack.weight = 0 := (Carries.start tokens).weight_eq
  omega

/-- No trace has more than five reductions for each token of the program. -/
theorem reductions_le
    (tokens : List Token)
    (operations : List Operation) :
    (operations.foldl perform (start tokens)).reductions ≤ 5 * tokens.length := by
  have hrecords := reductions_performAll (start tokens) operations
  have hfirings := tally_firings_le tokens operations
  have hshifts := shifts_performAll (start tokens) operations
  have hstart : (start tokens).reductions = 0 := rfl
  have htokens : (start tokens).pending.length = tokens.length := rfl
  omega

/-! ## Parsing -/

/-- What is done to parse so many tokens. -/
def routine (count : Nat) : List Operation :=
  (List.replicate count [Operation.shift, .reduce .primary]).flatten ++ [.reduce .primary]

/-- Feeding tokens is shifting and reducing in turns. -/
theorem feed_eq_performAll
    {s : State}
    {tokens : List Token}
    (h : s.pending = tokens) :
    s.feed tokens
      = (List.replicate tokens.length [Operation.shift, .reduce .primary]).flatten.foldl
          perform s := by
  induction tokens generalizing s with
  | nil =>
      rfl
  | cons token rest ih =>
      have hshift : s.perform .shift = s.shiftToken token rest := by
        simp [perform, shift?, h]
      have hpending : ((s.shiftToken token rest).reduce .primary).1.pending = rest :=
        (reductions_reduceWithin .primary _ (s.shiftToken token rest)).2
      rw [feed, ih hpending, List.length_cons, List.replicate_succ, List.flatten_cons,
        List.foldl_append, List.foldl_cons, List.foldl_cons, List.foldl_nil, hshift, perform]

theorem settle_eq_performAll
    (tokens : List Token) :
    (start tokens).settle = (routine tokens.length).foldl perform (start tokens) := by
  have hfeed : (start tokens).feed tokens = _ := feed_eq_performAll rfl
  rw [settle, routine, List.foldl_append, ← hfeed]
  rfl

/--
Whatever was done to the tokens, reducing ends, and productions have fired at
most five times as often as tokens were shifted, which the trace shows. Parsing
is a sequence of such operations, with a second attempt at most behind it; no
trace of a parse has more than five reductions for each token.
-/
theorem firings_le_five_mul_shifts
    (tokens : List Token)
    (operations : List Operation) :
    (∀ mode,
      Exhausts mode (operations.foldl perform (start tokens))
        ((operations.foldl perform (start tokens)).reduce mode).1
        ((operations.foldl perform (start tokens)).reduce mode).2) ∧
      tally firings (start tokens) operations ≤ 5 * tally shifts (start tokens) operations ∧
      tally firings (start tokens) operations
        = (operations.foldl perform (start tokens)).reductions ∧
      tally shifts (start tokens) operations
          + (operations.foldl perform (start tokens)).pending.length = tokens.length ∧
      (parse tokens).primary = (routine tokens.length).foldl perform (start tokens) ∧
      (parse tokens).state.reductions ≤ 5 * tokens.length ∧
      ((parse tokens).primary.reduce .fallback).1.reductions ≤ 5 * tokens.length := by
  obtain ⟨limbs, hbears⟩ := (Bears.start tokens).performAll operations
  have hprimary := (primary_parse tokens).trans (settle_eq_performAll tokens)
  have hattempt : ((parse tokens).primary.reduce .fallback).1
      = (routine tokens.length ++ [Operation.reduce .fallback]).foldl perform (start tokens) := by
    rw [List.foldl_append, ← hprimary]
    rfl
  have hrecords := reductions_performAll (start tokens) operations
  refine ⟨fun mode => hbears.admits (.reduce mode), tally_firings_le tokens operations, ?_,
    shifts_performAll (start tokens) operations, hprimary, ?_, ?_⟩
  · rw [hrecords]
    exact (Nat.zero_add _).symm
  · have hclose (s : State) (v : Verdict) : (s.close v).reductions = s.reductions := by
      simp [close, reductions, Record.production?]
    rcases state_parse tokens with hstate | ⟨-, -, hstate⟩
    · rw [hstate, hclose, hprimary]
      exact reductions_le tokens _
    · rw [hstate, hclose, hattempt]
      exact reductions_le tokens _
  · rw [hattempt]
    exact reductions_le tokens _

end State
end Derivation
end CometLang
