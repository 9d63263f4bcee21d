import CometLang.Proofs.Chronicle
import CometLang.Proofs.Finding
import CometLang.Proofs.Soundness

/-!
# Reductions at the top of the stack

Every production looks for its window among all symbols, from the bottom of the
stack on. In the first attempt at a program it need not: what fires there has a
window that ends at the top of the stack or one symbol below it.

The invariant is that every window to which a production applies is as near to the
top. A shifted token keeps it, because the symbols before were settled: a window
farther down would have applied without the token. A reduction keeps it too. What is
new to the symbols in front of it is the phrase that stands behind them now; but for
all that the productions look at, this phrase is no better than the first symbol of
the window it comes from, because no window starts with an operator.

So a parser that looks at the stack from the top, and only at windows that end there
or one symbol below, does the same in all it does.
-/

namespace CometLang

/-! ## Windows near the top -/

/-- A symbol other than an operator is no operator between factors. -/
theorem Symbol.isMultiplicative_eq_false
    {s : Symbol}
    (h : s.isArithmetic = false) :
    s.isMultiplicative = false := by
  cases s with
  | terminal token =>
      revert h
      simp only [isArithmetic, isMultiplicative, kind?, Option.any_some]
      cases token.kind <;> decide
  | nonterminal form =>
      rfl

namespace Production

/-- What stands behind a window counts only with its first symbol. -/
theorem Applies.of_head?_eq
    {p : Production}
    {before window behind behind' : List Symbol}
    (h : p.Applies .primary before window behind)
    (hhead : behind'.head? = behind.head?) :
    p.Applies .primary before window behind' := by
  refine ⟨h.spans, ?_⟩
  have hnext : Next.of behind' 0 .primary = Next.of behind 0 .primary := by
    simp only [Next.of, ← List.head?_eq_getElem?, hhead]
  rw [hnext]
  exact h.allowed

/-- A phrase behind a window allows no more than any symbol other than an operator. -/
theorem allows_of_phrase
    {p : Production}
    {before inside : Option Symbol}
    {form : Nonterminal}
    {s : Symbol}
    (h : p.allows before inside (.symbol (.nonterminal form)) = true)
    (hs : s.isArithmetic = false) :
    p.allows before inside (.symbol s) = true := by
  have hmultiplicative := Symbol.isMultiplicative_eq_false hs
  cases p with
  | logicalExpression =>
      simp [allows, Next.isSymbol, Symbol.isKind, Symbol.kind?] at h
  | factor =>
      simp only [allows, Next.isSymbol, hs]
      exact h
  | arithmeticSum =>
      simp [allows, Next.endsTerm, hmultiplicative]
  | arithmeticExpression =>
      simp only [allows, Next.endsTerm, hmultiplicative]
      exact h
  | expression =>
      simp [allows, Next.isSymbol, hs]
  | _ =>
      exact h

end Production

/-- Every window that a production applies to ends at the top, or one symbol below it. -/
def Shallow (symbols : List Symbol) : Prop :=
  ∀ (p : Production) (before window behind : List Symbol),
    symbols = before ++ window ++ behind →
      p.Applies .primary before window behind → behind.length ≤ 1

namespace Shallow

/-- Settled symbols have no such window at all. -/
theorem of_settled
    {symbols : List Symbol}
    (hsettled : nextReduction? .primary symbols = none) :
    Shallow symbols := by
  intro p before window behind hsplit happlies
  exact absurd happlies (Production.not_applies_of_settled hsettled hsplit)

/-- One symbol more on settled symbols. -/
theorem shift
    {symbols : List Symbol}
    (hsettled : nextReduction? .primary symbols = none)
    (s : Symbol) :
    Shallow (symbols ++ [s]) := by
  intro p before window behind hsplit happlies
  by_contra hdeep
  obtain ⟨behind, last, rfl⟩ := (List.eq_nil_or_concat' behind).resolve_left (by
    rintro rfl
    simp at hdeep)
  rw [← List.append_assoc] at hsplit
  obtain ⟨hsymbols, -⟩ := List.append_inj' hsplit rfl
  refine Production.not_applies_of_settled hsettled hsymbols (happlies.of_head?_eq ?_)
  cases behind with
  | nil =>
      simp at hdeep
  | cons t behind =>
      rfl

/-- The window of a reduction becomes its phrase. -/
theorem reduce
    {p : Production}
    {before window behind : List Symbol}
    (h : Shallow (before ++ window ++ behind))
    (happlies : p.Applies .primary before window behind) :
    Shallow (before ++ .nonterminal p.lhs :: behind) := by
  have hbehind := h p before window behind rfl happlies
  obtain ⟨first, window, rfl⟩ :=
    List.exists_cons_of_ne_nil (Production.spans_ne_nil happlies.spans)
  have hfirst := Production.first_not_operator happlies.spans
  intro q before' window' behind' hsplit happlies'
  by_contra hdeep
  -- The symbols behind reach beyond the phrase, so that the window stands in front of it.
  obtain ⟨between, rfl⟩ :
      ∃ between, behind' = between ++ .nonterminal p.lhs :: behind := by
    refine List.suffix_of_suffix_length_le ⟨before, rfl⟩ ⟨before' ++ window', hsplit.symm⟩ ?_
      |>.imp fun _ h => h.symm
    rw [List.length_cons]
    omega
  rw [← List.append_assoc] at hsplit
  obtain ⟨rfl, -⟩ := List.append_inj' hsplit rfl
  have hformer :
      q.Applies .primary before' window' (between ++ (first :: window ++ behind)) := by
    cases between with
    | nil =>
        exact ⟨happlies'.spans, Production.allows_of_phrase happlies'.allowed hfirst⟩
    | cons t between =>
        exact happlies'.of_head?_eq rfl
  have hshallow := h q before' window' _ (by simp) hformer
  simp only [List.length_append, List.length_cons] at hshallow hdeep
  omega

end Shallow

/-! ## The search from the top -/

namespace Rhs

theorem reverse_chainOf
    (count : Nat) :
    (chainOf count).reverse = chainOf count := by
  induction count with
  | zero =>
      rfl
  | succ count ih =>
      have hback :
          chainOf (count + 1)
            = chainOf count ++ [.nonterminal .logicalOp, .nonterminal .relationalExp] := by
        simp [chainOf, List.replicate_succ']
      calc
        (chainOf (count + 1)).reverse
            = .nonterminal .relationalExp :: .nonterminal .logicalOp :: chainOf count := by
          rw [hback, List.reverse_append, ih]
          rfl
        _ = chainOf (count + 1) := by
          simp [chainOf, List.replicate_succ]

theorem reverse_blockOf
    (opening closing : Token)
    (count : Nat) :
    (blockOf opening closing count).reverse = blockOf closing opening count := by
  simp [blockOf]

/-- The width of the window with this right-hand side, among symbols given from its end on. -/
def widthDown? : Rhs → List Symbol → Option Nat
  | sequence places, symbols => (sequence places.reverse).width? symbols
  | chain, symbols => chain.width? symbols
  | block, symbols => bracedWidth? .closeBrace .openBrace symbols

theorem widthDown?_eq_some
    {rhs : Rhs}
    {below : List Symbol}
    {width : Nat}
    (h : rhs.widthDown? below = some width) :
    ∃ window rest,
      below = window.reverse ++ rest ∧ window.length = width ∧ rhs.Spans window := by
  cases rhs with
  | sequence places =>
      rw [widthDown?] at h
      obtain ⟨window, rest, hsplit, hlength, hspans⟩ := width?_eq_some h
      refine ⟨window.reverse, rest, by simpa using hsplit, by simpa using hlength, ?_⟩
      simpa [Spans] using List.forall₂_reverse_iff.2 hspans
  | chain =>
      obtain ⟨window, rest, hsplit, hlength, count, rfl⟩ := width?_eq_some h
      exact ⟨chainOf (count + 1), rest, by rwa [reverse_chainOf], hlength, count, rfl⟩
  | block =>
      obtain ⟨closing, opening, count, rest, hclosing, hopening, hsplit, hlength⟩ :=
        bracedWidth?_eq_some_iff.1 h
      refine ⟨blockOf opening closing (count + 1), rest, ?_, ?_, opening, closing, count,
        hopening, hclosing, rfl⟩
      · rwa [reverse_blockOf]
      · rw [← hlength, ← reverse_blockOf, List.length_reverse]

theorem widthDown?_of_spans
    {rhs : Rhs}
    {window rest : List Symbol}
    (h : rhs.Spans window)
    (hrest : rhs = .chain → rest.head?.any (·.isForm .logicalOp) = false) :
    rhs.widthDown? (window.reverse ++ rest) = some window.length := by
  cases rhs with
  | sequence places =>
      have hreverse : (sequence places.reverse).Spans window.reverse :=
        List.forall₂_reverse_iff.2 h
      rw [widthDown?, width?_of_spans hreverse (by simp), List.length_reverse]
  | chain =>
      have hsame : window.reverse = window := by
        obtain ⟨count, rfl⟩ := h
        exact reverse_chainOf (count + 1)
      rw [hsame, widthDown?, width?_of_spans h hrest]
  | block =>
      obtain ⟨opening, closing, count, hopening, hclosing, rfl⟩ := h
      rw [reverse_blockOf]
      refine bracedWidth?_eq_some_iff.2
        ⟨closing, opening, count, rest, hclosing, hopening, rfl, ?_⟩
      rw [← reverse_blockOf, List.length_reverse]

end Rhs

namespace Production

/--
The reduction of a window that ends where some symbols end. They are given from their
end on, and the window is looked for from there.
-/
def endingAt?
    (p : Production)
    (next : Next)
    (below : List Symbol) : Option Reduction :=
  ((p.rhs.widthDown? below).filter fun width =>
      p.allows below[width]? below[width - 1]? next).map fun width =>
    ⟨below.length - width, width, p.lhs⟩

/-- The window one symbol below the top, or else the window at the top. -/
def nearTop?
    (p : Production) :
    List Symbol → Option Reduction
  | [] => none
  | top :: below =>
      (p.endingAt? (.symbol top) below).or (p.endingAt? .pending (top :: below))

/-- What is found at the end of some symbols is a window there that is allowed. -/
theorem endingAt?_eq_some_iff
    {p : Production}
    {mode : Mode}
    {symbols behind : List Symbol}
    {r : Reduction} :
    p.endingAt? (Next.of behind 0 mode) symbols.reverse = some r ↔
      ∃ before window,
        symbols = before ++ window ∧ r = ⟨before.length, window.length, p.lhs⟩ ∧
          p.Applies mode before window behind := by
  have hsurroundings
      (before window : List Symbol)
      (hwindow : window ≠ []) :
      (window.reverse ++ before.reverse)[window.length]? = before.getLast? ∧
        (window.reverse ++ before.reverse)[window.length - 1]? = window.head? := by
    obtain ⟨s, window, rfl⟩ := List.exists_cons_of_ne_nil hwindow
    constructor
    · rw [List.getElem?_append_right (by simp), List.length_reverse, Nat.sub_self,
        ← List.head?_eq_getElem?, List.head?_reverse]
    · simp
  constructor
  · intro h
    rw [endingAt?, Option.map_eq_some_iff] at h
    obtain ⟨width, hwidth, rfl⟩ := h
    rw [Option.filter_eq_some_iff] at hwidth
    obtain ⟨hwidth, hallowed⟩ := hwidth
    obtain ⟨window, rest, hsplit, rfl, hspans⟩ := Rhs.widthDown?_eq_some hwidth
    obtain ⟨before, rfl⟩ : ∃ before : List Symbol, rest = before.reverse :=
      ⟨rest.reverse, by simp⟩
    obtain ⟨hbefore, hinside⟩ := hsurroundings before window (spans_ne_nil hspans)
    rw [hsplit, hbefore, hinside] at hallowed
    refine ⟨before, window, ?_, ?_, ⟨hspans, hallowed⟩⟩
    · simpa using congrArg List.reverse hsplit
    · rw [hsplit]
      simp
  · rintro ⟨before, window, rfl, rfl, happlies⟩
    obtain ⟨hbefore, hinside⟩ := hsurroundings before window (spans_ne_nil happlies.spans)
    have hchain :
        p.rhs = .chain → before.reverse.head?.any (·.isForm .logicalOp) = false := by
      intro hchain
      obtain rfl := eq_logicalExpression hchain
      rw [List.head?_reverse]
      simpa using (Bool.and_eq_true_iff.1 happlies.allowed).1
    rw [List.reverse_append, endingAt?, Rhs.widthDown?_of_spans happlies.spans hchain,
      Option.filter_some, hbefore, hinside, happlies.allowed, if_pos rfl, Option.map_some]
    simp

/-- Of two windows of one production, the one that ends at the top starts later. -/
theorem Applies.length_lt
    {p : Production}
    {before window before' window' : List Symbol}
    {top : Symbol}
    (h : p.Applies .primary before window [top])
    (htop : p.Applies .primary before' window' [])
    (heq : before ++ window ++ [top] = before' ++ window') :
    before.length < before'.length := by
  have hspans := h.spans
  have hspans' := htop.spans
  cases hrhs : p.rhs with
  | sequence places =>
      rw [hrhs] at hspans hspans'
      have hsame : window.length = window'.length :=
        (List.Forall₂.length_eq hspans).symm.trans (List.Forall₂.length_eq hspans')
      have hlength := congrArg List.length heq
      simp only [List.length_append, List.length_singleton] at hlength
      omega
  | chain =>
      obtain rfl := eq_logicalExpression hrhs
      exact absurd (Bool.and_eq_true_iff.1 htop.allowed).2 (by decide)
  | block =>
      -- The symbol below the top would be a closing brace and an expression.
      rw [hrhs] at hspans hspans'
      obtain ⟨opening, closing, count, -, -, rfl⟩ := hspans
      obtain ⟨opening', closing', count', -, -, rfl⟩ := hspans'
      have hbelow :
          before ++ .terminal opening :: List.replicate (count + 1) (.nonterminal .expr)
              ++ [.terminal closing, top]
            = before' ++ .terminal opening' :: List.replicate count' (.nonterminal .expr)
              ++ [.nonterminal .expr, .terminal closing'] := by
        simpa [Rhs.blockOf, List.replicate_succ'] using heq
      obtain ⟨-, hlast⟩ := List.append_inj' hbelow rfl
      cases hlast

theorem nearTop?_concat
    (p : Production)
    (front : List Symbol)
    (top : Symbol) :
    p.nearTop? (front ++ [top]).reverse
      = (p.endingAt? (Next.of [top] 0 .primary) front.reverse).or
          (p.endingAt? (Next.of [] 0 .primary) (front ++ [top]).reverse) := by
  rw [List.reverse_concat]
  rfl

/-- What the search from the top finds can be applied, and is near the top. -/
theorem nearTop?_eq_some
    {p : Production}
    {symbols : List Symbol}
    {r : Reduction}
    (h : p.nearTop? symbols.reverse = some r) :
    ∃ before window behind,
      symbols = before ++ window ++ behind ∧ behind.length ≤ 1 ∧
        r = ⟨before.length, window.length, p.lhs⟩ ∧ p.Applies .primary before window behind := by
  rcases List.eq_nil_or_concat' symbols with rfl | ⟨front, top, rfl⟩
  · cases h
  · rw [nearTop?_concat, Option.or_eq_some_iff] at h
    rcases h with hbelow | ⟨-, htop⟩
    · obtain ⟨before, window, rfl, hr, happlies⟩ := endingAt?_eq_some_iff.1 hbelow
      exact ⟨before, window, [top], rfl, Nat.le_refl 1, hr, happlies⟩
    · obtain ⟨before, window, hsplit, hr, happlies⟩ := endingAt?_eq_some_iff.1 htop
      exact ⟨before, window, [], by simpa using hsplit, Nat.zero_le 1, hr, happlies⟩

/-- Where all windows are near the top, the search from the top finds the same. -/
theorem nearTop?_eq_find?
    {symbols : List Symbol}
    (h : Shallow symbols)
    (p : Production) :
    p.nearTop? symbols.reverse = p.find? .primary symbols := by
  cases hfind : p.find? .primary symbols with
  | none =>
      rw [Option.eq_none_iff_forall_ne_some]
      intro r hr
      obtain ⟨before, window, behind, hsplit, -, -, happlies⟩ := nearTop?_eq_some hr
      exact not_applies_of_find? hfind hsplit happlies
  | some r =>
      obtain ⟨before, window, behind, hsplit, rfl, happlies⟩ := find?_eq_some hfind
      have hnear := h p before window behind hsplit happlies
      match behind with
      | [top] =>
          rw [hsplit, nearTop?_concat,
            endingAt?_eq_some_iff.2 ⟨before, window, rfl, rfl, happlies⟩]
          rfl
      | [] =>
          rw [List.append_nil] at hsplit
          have hne : symbols ≠ [] := by
            simp [hsplit, spans_ne_nil happlies.spans]
          obtain ⟨front, top, hfront⟩ := (List.eq_nil_or_concat' symbols).resolve_left hne
          -- A window below the top is not left of this one, yet it has to start earlier.
          have hbelow : p.endingAt? (Next.of [top] 0 .primary) front.reverse = none := by
            rw [Option.eq_none_iff_forall_ne_some]
            intro r hr
            obtain ⟨before', window', rfl, -, happlies'⟩ := endingAt?_eq_some_iff.1 hr
            obtain ⟨r', hfound, hle⟩ := happlies'.find?_le
            rw [← hfront, hfind] at hfound
            obtain rfl := Option.some.inj hfound
            have hlt := happlies'.length_lt happlies (hfront.symm.trans hsplit)
            exact absurd hle (Nat.not_le.2 hlt)
          rw [hfront, nearTop?_concat, hbelow, Option.none_or, ← hfront]
          exact endingAt?_eq_some_iff.2 ⟨before, window, hsplit, rfl, happlies⟩

end Production

/-- The production to fire next and its window, found from the top of the stack. -/
def nearTopReduction? (symbols : List Symbol) : Option (Production × Reduction) :=
  Production.all.findSome? fun p =>
    (p.nearTop? symbols.reverse).map fun reduction => (p, reduction)

/-- No window is found but at the top and one symbol below it. -/
theorem nearTopReduction?_eq_some
    {symbols : List Symbol}
    {p : Production}
    {r : Reduction}
    (h : nearTopReduction? symbols = some (p, r)) :
    r.start + r.width = symbols.length ∨ r.start + r.width + 1 = symbols.length := by
  obtain ⟨_, q, _, _, hfound, _⟩ := List.findSome?_eq_some_iff.1 h
  obtain ⟨r', hnear, hpair⟩ := Option.map_eq_some_iff.1 hfound
  obtain ⟨rfl, rfl⟩ := Prod.mk.inj hpair
  obtain ⟨before, window, behind, rfl, hbehind, rfl, -⟩ := Production.nearTop?_eq_some hnear
  simp only [List.length_append]
  omega

theorem nearTopReduction?_eq
    {symbols : List Symbol}
    (h : Shallow symbols) :
    nearTopReduction? symbols = nextReduction? .primary symbols := by
  simp only [nearTopReduction?, nextReduction?, Production.catalog,
    Production.nearTop?_eq_find? h]

/-- A token on settled limbs. -/
theorem Limb.shallow_leaf
    {limbs : List Limb}
    (h : nextReduction? .primary (symbols limbs) = none)
    (token : Token) :
    Shallow (symbols (limbs ++ [.leaf token])) := by
  rw [symbols_append]
  exact .shift h _

/-- A reduction of limbs keeps their windows near the top. -/
theorem Limb.shallow_splice
    {limbs : List Limb}
    {p : Production}
    {r : Reduction}
    (hnext : nextReduction? .primary (symbols limbs) = some (p, r))
    (h : Shallow (symbols limbs)) :
    Shallow (symbols (splice limbs r)) := by
  obtain ⟨before, window, behind, rfl, rfl, happlies⟩ := nextReduction?_limbs hnext
  rw [symbols_append, symbols_append] at h
  rw [splice_append, symbols_append, symbols_cons, symbol_phrase]
  exact h.reduce happlies

/-! ## Parsers with other searches -/

namespace Derivation
namespace State

/-- Fires what a search finds until it finds nothing, at most `bound` times. -/
def reduceBy
    (search : List Symbol → Option (Production × Reduction)) :
    Nat → State → State
  | 0, s => s
  | bound + 1, s =>
      match (search s.symbols).bind fun found => s.fire? found.1 found.2 with
      | none => s
      | some next => reduceBy search bound next

/-- Shifts the tokens one by one, and reduces by a search after each of them. -/
def feedBy
    (search : List Symbol → Option (Production × Reduction)) :
    State → List Token → State
  | s, [] => s
  | s, token :: rest =>
      let shifted := s.shiftToken token rest
      feedBy search (shifted.reduceBy search shifted.stack.weight) rest

/-- The state when all tokens are shifted and the search finds nothing. -/
def settleBy
    (search : List Symbol → Option (Production × Reduction))
    (s : State) : State :=
  let fed := s.feedBy search s.pending
  fed.reduceBy search fed.stack.weight

/-- The outcome of a parse whose first attempt ends with this state. -/
def conclude (primary : State) : Outcome :=
  if primary.isAccepting then
    ⟨primary, none, .accept, primary.close .accept⟩
  else
    let attempt := primary.reduce .fallback
    if attempt.1.isSingleArithmetic then
      ⟨primary, some attempt, .accept, attempt.1.close .accept⟩
    else
      ⟨primary, some attempt, .reject, primary.close .reject⟩

end State

/-- Parses a list of tokens, with a search of its own in the first attempt. -/
def parseBy
    (search : List Symbol → Option (Production × Reduction))
    (tokens : List Token) : Outcome :=
  ((State.start tokens).settleBy search).conclude

namespace State
namespace Carries

variable {s : State} {capacity : Nat} {limbs : List Limb}
variable {search : List Symbol → Option (Production × Reduction)}

/-- What fires, fires on symbols whose windows are near the top. -/
theorem shallow_firedWithin
    (h : s.Carries capacity limbs)
    (hshallow : Shallow (Limb.symbols limbs))
    (bound : Nat) :
    ∀ f ∈ firedWithin .primary bound s, f.mode = .primary ∧ Shallow f.symbols := by
  induction bound generalizing s limbs with
  | zero =>
      intro f hf
      cases hf
  | succ bound ih =>
      cases hnext : nextReduction? .primary (Limb.symbols limbs) with
      | none =>
          rw [firedWithin, h.firing?_eq_none hnext]
          intro f hf
          cases hf
      | some found =>
          obtain ⟨p, r⟩ := found
          obtain ⟨next, hfiring, -, hcarries, -, -⟩ := h.firing?_eq_some hnext
          rw [firedWithin, hfiring]
          intro f hf
          rcases List.mem_cons.1 hf with rfl | hf
          · exact ⟨rfl, hshallow⟩
          · exact ih hcarries (Limb.shallow_splice hnext hshallow) f hf

theorem shallow_firedFeeding
    {tokens : List Token}
    (h : s.Carries capacity limbs)
    (hpending : s.pending = tokens)
    (hsettled : nextReduction? .primary (Limb.symbols limbs) = none) :
    ∀ f ∈ s.firedFeeding tokens, f.mode = .primary ∧ Shallow f.symbols := by
  induction tokens generalizing s limbs with
  | nil =>
      intro f hf
      cases hf
  | cons token rest ih =>
      have hshifted := h.shiftToken hpending
      have hshallow := Limb.shallow_leaf hsettled token
      obtain ⟨last, hsettles⟩ := Limb.exists_settles .primary (limbs ++ [.leaf token])
      obtain ⟨hreduced, hrest⟩ := hshifted.reduce hsettles
      intro f hf
      rcases List.mem_append.1 hf with hf | hf
      · exact hshifted.shallow_firedWithin hshallow _ f hf
      · exact ih hreduced hrest hsettles.nextReduction?_last f hf

/-- Searches that agree on such symbols have the same done, by induction on the bound. -/
theorem reduceBy_eq
    (hsearch : ∀ symbols, Shallow symbols → search symbols = nextReduction? .primary symbols)
    (h : s.Carries capacity limbs)
    (hshallow : Shallow (Limb.symbols limbs))
    (bound : Nat) :
    s.reduceBy search bound = (State.reduceWithin .primary bound s).1 := by
  induction bound generalizing s limbs with
  | zero =>
      rfl
  | succ bound ih =>
      have hfound := hsearch _ hshallow
      cases hnext : nextReduction? .primary (Limb.symbols limbs) with
      | none =>
          rw [State.reduceBy, State.reduceWithin, h.symbols_eq, hfound, hnext,
            h.step?_eq_none hnext]
          rfl
      | some found =>
          obtain ⟨p, r⟩ := found
          obtain ⟨next, hfire, hstep, hcarries, -⟩ := h.step?_eq_some hnext
          rw [State.reduceBy, State.reduceWithin, h.symbols_eq, hfound, hnext, hstep]
          simp only [Option.bind_some, hfire]
          exact ih hcarries (Limb.shallow_splice hnext hshallow)

theorem feedBy_eq
    {tokens : List Token}
    (hsearch : ∀ symbols, Shallow symbols → search symbols = nextReduction? .primary symbols)
    (h : s.Carries capacity limbs)
    (hpending : s.pending = tokens)
    (hsettled : nextReduction? .primary (Limb.symbols limbs) = none) :
    s.feedBy search tokens = s.feed tokens := by
  induction tokens generalizing s limbs with
  | nil =>
      rfl
  | cons token rest ih =>
      have hshifted := h.shiftToken hpending
      have hshallow := Limb.shallow_leaf hsettled token
      obtain ⟨last, hsettles⟩ := Limb.exists_settles .primary (limbs ++ [.leaf token])
      obtain ⟨hreduced, hrest⟩ := hshifted.reduce hsettles
      simp only [State.feedBy, State.feed, hshifted.reduceBy_eq hsearch hshallow]
      exact ih hreduced hrest hsettles.nextReduction?_last

end Carries

/-- When all tokens are fed, the limbs are settled. -/
theorem exists_settled_feed
    (tokens : List Token) :
    ∃ limbs,
      ((start tokens).feed tokens).Carries tokens.length limbs ∧
        nextReduction? .primary (Limb.symbols limbs) = none := by
  obtain ⟨limbs, hreads⟩ := Limb.exists_reads [] tokens
  exact ⟨limbs, ((Carries.start tokens).feed rfl hreads).1, hreads.nextReduction?_last rfl⟩

end State

/-- A search that agrees on symbols with windows near the top makes the same parser. -/
theorem parseBy_eq
    {search : List Symbol → Option (Production × Reduction)}
    (hsearch : ∀ symbols, Shallow symbols → search symbols = nextReduction? .primary symbols)
    (tokens : List Token) :
    parseBy search tokens = parse tokens := by
  have hfeed := (State.Carries.start tokens).feedBy_eq hsearch rfl rfl
  obtain ⟨limbs, hfed, hsettled⟩ := State.exists_settled_feed tokens
  have hsettle : (State.start tokens).settleBy search = (State.start tokens).settle := by
    rw [State.settleBy, hfeed]
    exact hfed.reduceBy_eq hsearch (.of_settled hsettled) _
  rw [parseBy, hsettle]
  rfl

theorem shallow_primaryFirings
    (tokens : List Token) :
    ∀ f ∈ primaryFirings tokens, f.mode = .primary ∧ Shallow f.symbols := by
  obtain ⟨limbs, hfed, hsettled⟩ := State.exists_settled_feed tokens
  intro f hf
  rcases List.mem_append.1 hf with hf | hf
  · exact (State.Carries.start tokens).shallow_firedFeeding rfl rfl f hf
  · exact hfed.shallow_firedWithin (.of_settled hsettled) _ f hf

/--
In the first attempt at a program, every production fires on a window that ends at the
top of the stack or one symbol below it. So a parser that reads the stack from the top
on, and finds no other windows, comes to the same outcome: the same states, records,
trees and verdicts.
-/
theorem reductions_near_top
    (tokens : List Token) :
    (parse tokens).primary.reduceRecords
        = (primaryFirings tokens).map (fun f => f.recordShowing (f.window ++ f.behind)) ∧
      (∀ f ∈ primaryFirings tokens,
        nextReduction? .primary f.symbols = some (f.production, f.reduction) ∧
          (f.reduction.start + f.reduction.width = f.symbols.length ∨
            f.reduction.start + f.reduction.width + 1 = f.symbols.length)) ∧
      (∀ symbols p r, nearTopReduction? symbols = some (p, r) →
        r.start + r.width = symbols.length ∨ r.start + r.width + 1 = symbols.length) ∧
      parseBy nearTopReduction? tokens = parse tokens := by
  have hprimary := State.chronicles_primary tokens
  refine ⟨?_, fun f hf => ?_, fun _ _ _ => nearTopReduction?_eq_some,
    parseBy_eq (fun _ => nearTopReduction?_eq) tokens⟩
  · have hrecords := hprimary.records
    rwa [State.reduceRecords_start, List.nil_append] at hrecords
  · obtain ⟨hmode, hshallow⟩ := shallow_primaryFirings tokens f hf
    have hnext := hprimary.isNext f hf
    obtain ⟨hsplit, hbefore, hwindow, happlies⟩ := hnext.split
    rw [hmode] at happlies
    have hbehind := hshallow f.production f.before f.window f.behind hsplit happlies
    refine ⟨hmode ▸ hnext, ?_⟩
    have hlength := congrArg List.length hsplit
    simp only [List.length_append] at hlength
    omega

/-- The leading factor of `1 + 2` fires below its sign, and the search from the top finds it. -/
theorem leadingFactor_near_top :
    leadingFactor ∈ primaryFirings bareSum ∧
      nextReduction? .primary leadingFactor.symbols = some (.factor, ⟨0, 1, .factor⟩) ∧
      (0 + 1 = leadingFactor.symbols.length ∨ 0 + 1 + 1 = leadingFactor.symbols.length) ∧
      nearTopReduction? leadingFactor.symbols = some (.factor, ⟨0, 1, .factor⟩) ∧
      parseBy nearTopReduction? bareSum = parse bareSum := by
  have hfires : leadingFactor ∈ primaryFirings bareSum := by
    decide +kernel
  obtain ⟨-, hall, -, hparse⟩ := reductions_near_top bareSum
  obtain ⟨hnext, hends⟩ := hall leadingFactor hfires
  exact ⟨hfires, hnext, hends, by decide, hparse⟩

end Derivation
end CometLang
