import CometLang.Proofs.Juxtaposition
import CometLang.Proofs.Mirror

/-!
# What fires in a parse

The chronicle of a parse lists the productions that fire in it, each with the
symbols it finds at hand and the reduction it carries out on them. It runs parallel
to the trace: the trace has one record of a reduction for each firing, in the same
order.

A record shows the symbols that the reduction leaves behind, and that is exact: the
window is replaced by its phrase, and all else stays in its place. What it shows as
the window are the symbols from the start of the window to the top of the stack. So
a record shows the window alone if and only if the window reaches to the top.
-/

namespace CometLang
namespace Derivation

/-- A production that fires: the mode, the symbols at hand, and what is done to them. -/
structure Firing where
  mode : Mode
  symbols : List Symbol
  production : Production
  reduction : Reduction
deriving DecidableEq, Repr

namespace Firing

/-- The symbols in front of the window. -/
def before (f : Firing) : List Symbol :=
  f.symbols.take f.reduction.start

/-- The symbols that the reduction consumes. -/
def window (f : Firing) : List Symbol :=
  (f.symbols.drop f.reduction.start).take f.reduction.width

/-- The symbols behind the window. -/
def behind (f : Firing) : List Symbol :=
  f.symbols.drop (f.reduction.start + f.reduction.width)

/-- The symbols that the reduction leaves. -/
def result (f : Firing) : List Symbol :=
  f.before ++ .nonterminal f.reduction.lhs :: f.behind

/-- The record of the firing, with some symbols shown as its window. -/
def recordShowing
    (f : Firing)
    (shown : List Symbol) : Record :=
  .reduce f.production f.result shown

/-- The production is the one to fire next, and the reduction is its own. -/
def IsNext (f : Firing) : Prop :=
  nextReduction? f.mode f.symbols = some (f.production, f.reduction)

theorem window_append_behind
    (f : Firing) :
    f.window ++ f.behind = f.symbols.drop f.reduction.start := by
  rw [window, behind, ← List.drop_drop, List.take_append_drop]

/-- The window stands between the symbols around it, and the production applies to it. -/
theorem IsNext.split
    {f : Firing}
    (h : f.IsNext) :
    f.symbols = f.before ++ f.window ++ f.behind ∧
      f.before.length = f.reduction.start ∧
      f.window.length = f.reduction.width ∧
      f.production.Applies f.mode f.before f.window f.behind := by
  obtain ⟨mode, symbols, production, reduction⟩ := f
  obtain ⟨before, window, behind, hsplit, hreduction, happlies⟩ := nextReduction?_eq_some h
  dsimp only at hsplit hreduction happlies
  subst hsplit hreduction
  have hbefore : (before ++ window ++ behind).take before.length = before := by
    rw [List.append_assoc, List.take_left]
  have hwindow : ((before ++ window ++ behind).drop before.length).take window.length
      = window := by
    rw [List.append_assoc, List.drop_left, List.take_left]
  have hbehind : (before ++ window ++ behind).drop (before.length + window.length)
      = behind := by
    rw [← List.length_append, List.drop_left]
  simp only [Firing.before, Firing.window, Firing.behind, hbefore, hwindow, hbehind, true_and]
  exact happlies

end Firing

namespace State

/-- What fires next, and the state that it leaves. -/
def firing?
    (mode : Mode)
    (s : State) : Option (Firing × State) := do
  let (p, r) ← nextReduction? mode s.symbols
  let next ← s.fire? p r
  return (⟨mode, s.symbols, p, r⟩, next)

/-- What fires until nothing applies, at most `bound` times. -/
def firedWithin
    (mode : Mode) :
    Nat → State → List Firing
  | 0, _ => []
  | bound + 1, s =>
      match s.firing? mode with
      | none => []
      | some (f, next) => f :: firedWithin mode bound next

/-- What fires until nothing applies. -/
def fired
    (mode : Mode)
    (s : State) : List Firing :=
  firedWithin mode s.stack.weight s

/-- What fires while tokens are shifted one by one. -/
def firedFeeding : State → List Token → List Firing
  | _, [] => []
  | s, token :: rest =>
      (s.shiftToken token rest).fired .primary
        ++ firedFeeding ((s.shiftToken token rest).reduce .primary).1 rest

/-- The records of reductions in the trace, in order. -/
def reduceRecords (s : State) : List Record :=
  s.records.filter (·.production?.isSome)

end State

/-- What fires in the first attempt at some tokens. -/
def primaryFirings (tokens : List Token) : List Firing :=
  (State.start tokens).firedFeeding tokens
    ++ ((State.start tokens).feed tokens).fired .primary

/-- What fires in the parse of some tokens, in a second attempt too if it is adopted. -/
def chronicle (tokens : List Token) : List Firing :=
  if !(parse tokens).primary.isAccepting
      && ((parse tokens).primary.reduce .fallback).1.isSingleArithmetic then
    primaryFirings tokens ++ (parse tokens).primary.fired .fallback
  else
    primaryFirings tokens

/-! ## The trace keeps the chronicle -/

namespace State

/-- Between two states the productions fired, and each of them left its record. -/
structure Chronicles
    (s last : State)
    (firings : List Firing) : Prop where
  records :
    last.reduceRecords
      = s.reduceRecords ++ firings.map fun f => f.recordShowing (f.window ++ f.behind)
  isNext : ∀ f ∈ firings, f.IsNext

namespace Chronicles

variable {s next last : State} {firings more : List Firing}

theorem nil
    (h : last.reduceRecords = s.reduceRecords) :
    Chronicles s last [] :=
  ⟨by simpa using h, by simp⟩

theorem append
    (h : Chronicles s next firings)
    (hnext : Chronicles next last more) :
    Chronicles s last (firings ++ more) := by
  refine ⟨?_, ?_⟩
  · rw [hnext.records, h.records, List.map_append, List.append_assoc]
  · intro f hf
    rcases List.mem_append.1 hf with hf | hf
    · exact h.isNext f hf
    · exact hnext.isNext f hf

/-- What is left in the last state is all that counts there. -/
theorem of_eq
    {last' : State}
    (h : Chronicles s last firings)
    (heq : last'.reduceRecords = last.reduceRecords) :
    Chronicles s last' firings :=
  ⟨heq.trans h.records, h.isNext⟩

end Chronicles

theorem reduceRecords_start
    (tokens : List Token) :
    (start tokens).reduceRecords = [] :=
  rfl

theorem reduceRecords_shiftToken
    (s : State)
    (token : Token)
    (rest : List Token) :
    (s.shiftToken token rest).reduceRecords = s.reduceRecords := by
  simp [reduceRecords, records, shiftToken, Record.production?]

theorem reduceRecords_close
    (s : State)
    (v : Verdict) :
    (s.close v).reduceRecords = s.reduceRecords := by
  simp [reduceRecords, records, close, Record.production?]

theorem reduceRecords_fire?
    {s next : State}
    {p : Production}
    {r : Reduction}
    (h : s.fire? p r = some next) :
    next.reduceRecords
      = s.reduceRecords ++ [.reduce p next.symbols (s.symbols.drop r.start)] := by
  simp only [fire?, Option.bind_eq_bind, Option.bind_eq_some_iff] at h
  obtain ⟨stack, -, tree, -, hnext⟩ := h
  obtain rfl := Option.some.inj hnext
  simp [reduceRecords, records, Record.production?, symbols]

namespace Carries

variable {s : State} {capacity : Nat} {limbs : List Limb} {mode : Mode}

theorem firing?_eq_none
    (h : s.Carries capacity limbs)
    (hnone : nextReduction? mode (Limb.symbols limbs) = none) :
    s.firing? mode = none := by
  simp [State.firing?, h.symbols_eq, hnone]

/-- One firing, with what it does to the limbs and to the trace. -/
theorem firing?_eq_some
    {p : Production}
    {r : Reduction}
    (h : s.Carries capacity limbs)
    (hsome : nextReduction? mode (Limb.symbols limbs) = some (p, r)) :
    ∃ next,
      s.firing? mode = some (⟨mode, Limb.symbols limbs, p, r⟩, next) ∧
        s.step? mode = some (next, r) ∧
        next.Carries capacity (Limb.splice limbs r) ∧
        next.pending = s.pending ∧
        Chronicles s next [⟨mode, Limb.symbols limbs, p, r⟩] := by
  obtain ⟨next, hfire, hstep, hcarries, hpending⟩ := h.step?_eq_some hsome
  refine ⟨next, ?_, hstep, hcarries, hpending, ?_⟩
  · simp [State.firing?, h.symbols_eq, hsome, hfire]
  · have hnext : Firing.IsNext ⟨mode, Limb.symbols limbs, p, r⟩ := hsome
    refine ⟨?_, by simpa using hnext⟩
    have hresult :
        next.symbols = Firing.result ⟨mode, Limb.symbols limbs, p, r⟩ := by
      rw [hcarries.symbols_eq]
      simp [Limb.splice, Limb.symbols, Firing.result, Firing.before, Firing.behind]
    rw [reduceRecords_fire? hfire, hresult, h.symbols_eq]
    simp only [List.map_cons, List.map_nil, Firing.window_append_behind]
    rfl

/-- What fires until nothing applies is what the trace gets, by induction on the bound. -/
theorem chronicles_reduceWithin
    (h : s.Carries capacity limbs)
    (bound : Nat) :
    Chronicles s (State.reduceWithin mode bound s).1 (State.firedWithin mode bound s) := by
  induction bound generalizing s limbs with
  | zero =>
      exact .nil rfl
  | succ bound ih =>
      cases hnext : nextReduction? mode (Limb.symbols limbs) with
      | none =>
          simp only [State.reduceWithin, State.firedWithin, h.step?_eq_none hnext,
            h.firing?_eq_none hnext]
          exact .nil rfl
      | some found =>
          obtain ⟨p, r⟩ := found
          obtain ⟨next, hfiring, hstep, hcarries, -, hfirst⟩ := h.firing?_eq_some hnext
          simp only [State.reduceWithin, State.firedWithin, hstep, hfiring]
          exact hfirst.append (ih hcarries)

theorem chronicles_reduce
    (h : s.Carries capacity limbs)
    (mode : Mode) :
    Chronicles s (s.reduce mode).1 (s.fired mode) :=
  h.chronicles_reduceWithin s.stack.weight

/-- Shifting leaves no record of a reduction. -/
theorem chronicles_feed
    {tokens : List Token}
    (h : s.Carries capacity limbs)
    (hpending : s.pending = tokens) :
    Chronicles s (s.feed tokens) (s.firedFeeding tokens) := by
  induction tokens generalizing s limbs with
  | nil =>
      exact .nil rfl
  | cons token rest ih =>
      have hshifted := h.shiftToken hpending
      obtain ⟨last, hsettles⟩ := Limb.exists_settles .primary (limbs ++ [.leaf token])
      obtain ⟨hreduced, hrest⟩ := hshifted.reduce hsettles
      have hfirst := hshifted.chronicles_reduce .primary
      rw [State.feed, State.firedFeeding]
      refine Chronicles.append ⟨?_, hfirst.isNext⟩ (ih hreduced hrest)
      rw [hfirst.records, reduceRecords_shiftToken]

end Carries

/-- The first attempt, from the start. -/
theorem chronicles_primary
    (tokens : List Token) :
    Chronicles (start tokens) (parse tokens).primary (primaryFirings tokens) := by
  obtain ⟨limbs, hreads⟩ := Limb.exists_reads [] tokens
  obtain ⟨hfed, -⟩ := (Carries.start tokens).feed rfl hreads
  rw [primary_parse, settle]
  exact ((Carries.start tokens).chronicles_feed rfl).append (hfed.chronicles_reduce .primary)

/-- The whole parse; a second attempt goes on from what the first one has left. -/
theorem chronicles_parse
    (tokens : List Token) :
    Chronicles (start tokens) (parse tokens).state (chronicle tokens) := by
  have hprimary := chronicles_primary tokens
  obtain ⟨limbs, hreads⟩ := Limb.exists_reads [] tokens
  have hattempt :=
    hprimary.append ((carries_primary hreads).chronicles_reduce .fallback)
  rw [chronicle]
  rw [primary_parse] at hprimary hattempt ⊢
  rw [parse]
  by_cases haccepting : (start tokens).settle.isAccepting = true
  · simp only [haccepting, if_true, Bool.not_true, Bool.false_and]
    exact hprimary.of_eq (reduceRecords_close _ _)
  · by_cases hsingle : ((start tokens).settle.reduce .fallback).1.isSingleArithmetic = true
    · simp only [haccepting, hsingle, if_true, Bool.not_false, Bool.and_true]
      exact hattempt.of_eq (reduceRecords_close _ _)
    · simp only [haccepting, hsingle, Bool.and_false]
      exact hprimary.of_eq (reduceRecords_close _ _)

end State

/-! ## What a record shows -/

/-- Symbols behind others make the text longer. -/
theorem symbolsText_append_eq_iff
    {front : List Symbol}
    (hfront : front ≠ [])
    (rest : List Symbol) :
    symbolsText (front ++ rest) = symbolsText front ↔ rest = [] := by
  constructor
  · intro heq
    by_contra hrest
    have hlonger :
        symbolsText (front ++ rest) = symbolsText front ++ " " ++ symbolsText rest := by
      rw [symbolsText, List.map_append,
        String.intercalate_append_of_ne_nil (by simpa using hfront) (by simpa using hrest)]
      rfl
    have hlength := congrArg String.length (hlonger.symm.trans heq)
    simp only [String.length_append] at hlength
    have hspace : " ".length = 1 := rfl
    omega
  · rintro rfl
    rw [List.append_nil]

/-- Two records of one firing read the same if and only if they show the same text. -/
theorem Firing.text_recordShowing_eq_iff
    (f : Firing)
    (shown shown' : List Symbol) :
    (f.recordShowing shown).text = (f.recordShowing shown').text ↔
      symbolsText shown = symbolsText shown' := by
  simp only [recordShowing, Record.text]
  constructor
  · intro heq
    exact String.append_right_inj _ |>.1 heq
  · intro heq
    rw [heq]

/--
The trace of a parse has one record for each production that fires, in order. It
shows the symbols that the reduction leaves, with the window replaced by its phrase.
As the window it shows the window and all that stands behind it; so it reads as a
record of the window alone if and only if the window reaches to the top.
-/
theorem reduce_records_reach_to_top
    (tokens : List Token) :
    (parse tokens).state.reduceRecords
        = (chronicle tokens).map (fun f => f.recordShowing (f.window ++ f.behind)) ∧
      ∀ f ∈ chronicle tokens,
        nextReduction? f.mode f.symbols = some (f.production, f.reduction) ∧
          f.symbols = f.before ++ f.window ++ f.behind ∧
          f.before.length = f.reduction.start ∧
          f.window.length = f.reduction.width ∧
          ((f.recordShowing (f.window ++ f.behind)).text = (f.recordShowing f.window).text ↔
            f.reduction.start + f.reduction.width = f.symbols.length) := by
  have hparse := State.chronicles_parse tokens
  have hrecords := hparse.records
  rw [State.reduceRecords_start, List.nil_append] at hrecords
  refine ⟨hrecords, fun f hf => ?_⟩
  have hnext := hparse.isNext f hf
  obtain ⟨hsplit, hbefore, hwindow, happlies⟩ := hnext.split
  refine ⟨hnext, hsplit, hbefore, hwindow, ?_⟩
  rw [f.text_recordShowing_eq_iff,
    symbolsText_append_eq_iff (Production.spans_ne_nil happlies.spans),
    ← List.length_eq_zero_iff]
  have hlength := congrArg List.length hsplit
  simp only [List.length_append] at hlength
  omega

/-- The leading factor of `1 + 2`, with the sign behind it. -/
def leadingFactor : Firing :=
  ⟨.primary, [.nonterminal .cometLiteral, .terminal Abstract.Operator.plus.piece.token],
    .factor, ⟨0, 1, .factor⟩⟩

/-- Its window does not reach to the top, and its record does not read as one of the window. -/
theorem leadingFactor_record :
    leadingFactor ∈ chronicle bareSum ∧
      (leadingFactor.recordShowing (leadingFactor.window ++ leadingFactor.behind)).text
        ≠ (leadingFactor.recordShowing leadingFactor.window).text := by
  have hfires : leadingFactor ∈ chronicle bareSum := by
    decide +kernel
  obtain ⟨-, -, -, -, hreads⟩ := (reduce_records_reach_to_top bareSum).2 leadingFactor hfires
  refine ⟨hfires, fun hsame => ?_⟩
  exact absurd (hreads.1 hsame) (by decide)

/-- The record of the first factor of `1 + 2` shows the sign behind it as well. -/
theorem record_not_always_of_window :
    ¬ ∀ tokens,
      (parse tokens).state.reduceRecords.map Record.text
        = (chronicle tokens).map (fun f => (f.recordShowing f.window).text) := by
  intro h
  have hsum := h bareSum
  revert hsum
  decide +kernel

end Derivation
end CometLang
