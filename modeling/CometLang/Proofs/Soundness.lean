import CometLang.Derivation.Parse
import CometLang.Proofs.Yield

/-!
# Accepted programs are sentences

A single operand becomes a factor, a term and an arithmetic expression, though
it is no arithmetic expression of the grammar. What makes the difference is the
surroundings. A single operand is only taken for a factor beside an operator;
the operator stays beside it until both are part of a longer expression; and an
arithmetic expression has no operator before it. So an arithmetic expression
without an operator behind it is more than a single operand.

The invariant of this module says this of all limbs at hand, and that they are
sound. It holds after any sequence of shifts and reductions.
-/

namespace CometLang

open Derivation
open Sentence

/-! ## The ends of a window -/

/-- The places at which an arithmetic operator may stand. -/
def Expect.isOperator : Expect → Bool
  | kind k => k.isArithmetic
  | additive | multiplicative => true
  | _ => false

/-- No arithmetic operator stands at any other place. -/
theorem Expect.not_operator
    {place : Expect}
    {s : Symbol}
    (hplace : place.isOperator = false)
    (hadmits : place.admits s = true) :
    s.isArithmetic = false := by
  cases s with
  | terminal token =>
      cases place <;>
        simp_all [isOperator, admits, Symbol.isArithmetic, Symbol.isKind, Symbol.isForm,
          Symbol.kind?, Symbol.form?]
      all_goals
        revert hadmits
        cases token.kind <;> decide
  | nonterminal form =>
      rfl

namespace Production

/-- A window does not start with an arithmetic operator. -/
theorem first_not_operator
    {p : Production}
    {s : Symbol}
    {rest : List Symbol}
    (h : p.rhs.Spans (s :: rest)) :
    s.isArithmetic = false := by
  cases p with
  | logicalExpression =>
      obtain ⟨count, hsymbols⟩ := h
      obtain ⟨rfl, _⟩ := List.cons.inj hsymbols
      rfl
  | block =>
      obtain ⟨opening, closing, count, hopening, _, hsymbols⟩ := h
      obtain ⟨rfl, _⟩ := List.cons.inj hsymbols
      simp [Symbol.isArithmetic, Symbol.kind?, hopening]
      rfl
  | _ =>
      obtain _ | ⟨hadmits, _⟩ := h
      exact Expect.not_operator rfl hadmits

/-- A window does not end with an arithmetic operator. -/
theorem last_not_operator
    {p : Production}
    {s : Symbol}
    {rest : List Symbol}
    (h : p.rhs.Spans (rest ++ [s])) :
    s.isArithmetic = false := by
  cases p with
  | logicalExpression =>
      obtain ⟨count, hsymbols⟩ := h
      have hmem : s ∈ Rhs.chainOf (count + 1) := by
        rw [← hsymbols]
        simp
      simp only [Rhs.chainOf, List.mem_cons, List.mem_flatten, List.mem_replicate] at hmem
      obtain rfl | ⟨_, ⟨_, rfl⟩, hmem⟩ := hmem
      · rfl
      · simp only [List.mem_cons, List.not_mem_nil, or_false] at hmem
        obtain rfl | rfl := hmem <;> rfl
  | block =>
      obtain ⟨opening, closing, count, _, hclosing, hsymbols⟩ := h
      rw [Rhs.blockOf, ← List.cons_append] at hsymbols
      obtain ⟨_, hlast⟩ := List.append_inj' hsymbols rfl
      obtain ⟨rfl, _⟩ := List.cons.inj hlast
      simp [Symbol.isArithmetic, Symbol.kind?, hclosing]
      rfl
  | _ =>
      have hreverse := List.forall₂_reverse_iff.2 h
      rw [List.reverse_append] at hreverse
      obtain _ | ⟨hadmits, _⟩ := hreverse
      exact Expect.not_operator rfl hadmits

end Production

/-! ## Operators beside limbs -/

namespace Limb

/-- The limb is an arithmetic operator. -/
def isOperator (limb : Limb) : Bool :=
  limb.symbol.isArithmetic

/-- The limb is part of an arithmetic expression and has only one token below. -/
def Bare (limb : Limb) : Prop :=
  limb.symbol ∈
      [Symbol.nonterminal .factor, Symbol.nonterminal .term, Symbol.nonterminal .arithExp] ∧
    limb.kinds.length = 1

/--
A bare limb has an operator beside it, and an arithmetic expression has none
before it. The flags tell whether there is an operator before and behind.
-/
structure Braced
    (before : Bool)
    (limb : Limb)
    (behind : Bool) : Prop where
  beside : limb.Bare → before = true ∨ behind = true
  leading : limb.symbol = .nonterminal .arithExp → before = false

/-- The limbs start with an operator; if there are none, the flag tells. -/
def opens : List Limb → Bool → Bool
  | [], behind => behind
  | limb :: _, _ => limb.isOperator

/-- The limbs end with an operator; if there are none, the flag tells. -/
def closes : Bool → List Limb → Bool
  | before, [] => before
  | _, limb :: rest => closes limb.isOperator rest

/-- Every limb is braced by its neighbours. -/
def AllBraced : Bool → List Limb → Bool → Prop
  | _, [], _ => True
  | before, limb :: rest, behind =>
      Braced before limb (opens rest behind) ∧ AllBraced limb.isOperator rest behind

theorem opens_append
    (as bs : List Limb)
    (behind : Bool) :
    opens (as ++ bs) behind = opens as (opens bs behind) := by
  cases as <;> rfl

theorem closes_append
    (before : Bool)
    (as bs : List Limb) :
    closes before (as ++ bs) = closes (closes before as) bs := by
  induction as generalizing before with
  | nil =>
      rfl
  | cons limb as ih =>
      exact ih limb.isOperator

/-- Two lists of limbs are braced if each is, with the other one beside it. -/
theorem allBraced_append
    (before : Bool)
    (as bs : List Limb)
    (behind : Bool) :
    AllBraced before (as ++ bs) behind ↔
      AllBraced before as (opens bs behind) ∧ AllBraced (closes before as) bs behind := by
  induction as generalizing before with
  | nil =>
      simp [AllBraced, closes]
  | cons limb as ih =>
      simp only [List.cons_append, AllBraced, opens_append, ih, closes, and_assoc]

/-- The flag before limbs is what the production sees before its window. -/
theorem closes_eq_any
    (limbs : List Limb) :
    closes false limbs = (symbols limbs).getLast?.any Symbol.isArithmetic := by
  cases List.eq_nil_or_concat' limbs with
  | inl hnil =>
      subst hnil
      rfl
  | inr hconcat =>
      obtain ⟨front, last, rfl⟩ := hconcat
      simp [closes_append, closes, isOperator]

/-- The flag behind limbs is what the production sees behind its window. -/
theorem opens_eq_isSymbol
    (limbs : List Limb)
    (mode : Mode) :
    opens limbs false = (Next.of (symbols limbs) 0 mode).isSymbol Symbol.isArithmetic := by
  cases limbs with
  | nil =>
      cases mode <;> rfl
  | cons limb limbs =>
      cases mode <;> rfl

/-- A window has no operator at its ends. -/
theorem ends_of_spans
    {p : Production}
    {window : List Limb}
    (h : p.rhs.Spans (symbols window))
    (before behind : Bool) :
    opens window behind = false ∧ closes before window = false := by
  constructor
  · cases window with
    | nil =>
        exact absurd rfl (Production.spans_ne_nil h)
    | cons limb rest =>
        exact Production.first_not_operator h
  · cases List.eq_nil_or_concat' window with
    | inl hnil =>
        subst hnil
        exact absurd rfl (Production.spans_ne_nil h)
    | inr hconcat =>
        obtain ⟨front, last, rfl⟩ := hconcat
        rw [closes_append]
        rw [symbols_append] at h
        exact Production.last_not_operator h

/-- Joined operands are not empty. -/
theorem length_pos_of_joined
    {w : List Kind}
    (h : Joined Operand Kind.isArithmetic w) :
    0 < w.length := by
  cases h with
  | one hu =>
      obtain ⟨k, _, rfl⟩ := hu
      simp
  | more hu _ _ =>
      rw [List.length_append, List.length_cons]
      omega

/-- A product or a sum is not bare. -/
theorem not_bare_of_three
    {form : Nonterminal}
    {left op right : Limb}
    {k : Kind}
    (hleft : Joined Operand Kind.isArithmetic left.kinds)
    (hop : op.kinds = [k])
    (hright : Joined Operand Kind.isArithmetic right.kinds) :
    ¬ (phrase form [left, op, right]).Bare := by
  rintro ⟨_, hlength⟩
  have hleftPos := length_pos_of_joined hleft
  have hrightPos := length_pos_of_joined hright
  simp only [kinds_phrase, List.flatMap_cons, List.flatMap_nil, List.length_append, hop,
    List.length_singleton, List.length_nil] at hlength
  omega

/-- A phrase over a braced window is braced. -/
theorem braced_phrase
    {mode : Mode}
    {p : Production}
    {before window behind : List Limb}
    (hsound : ∀ limb ∈ window, limb.Sound)
    (hbraced : AllBraced (closes false before) window (opens behind false))
    (happlies : p.Applies mode (symbols before) (symbols window) (symbols behind)) :
    Braced (closes false before) (phrase p.lhs window) (opens behind false) := by
  have hallowed := happlies.allowed
  have hspans := happlies.spans
  cases p with
  | factor =>
      refine ⟨?_, by simp [Production.lhs]⟩
      intro _
      rw [closes_eq_any, opens_eq_isSymbol behind mode]
      simpa [Production.allows] using hallowed
  | term =>
      obtain ⟨limb, rest, hlimb, hrest, rfl⟩ :=
        List.forall₂_cons_left_iff.1 (List.forall₂_map_right_iff.1 hspans)
      obtain rfl := List.forall₂_nil_left_iff.1 hrest
      refine ⟨?_, by simp [Production.lhs]⟩
      rintro ⟨_, hlength⟩
      refine hbraced.1.beside ⟨?_, by simpa using hlength⟩
      simp [Symbol.isForm_iff.1 hlimb]
  | arithmeticExpression =>
      obtain ⟨limb, rest, hlimb, hrest, rfl⟩ :=
        List.forall₂_cons_left_iff.1 (List.forall₂_map_right_iff.1 hspans)
      obtain rfl := List.forall₂_nil_left_iff.1 hrest
      simp only [Production.allows, Bool.and_eq_true, Bool.not_eq_true'] at hallowed
      refine ⟨?_, fun _ => by rw [closes_eq_any]; exact hallowed.1⟩
      rintro ⟨_, hlength⟩
      refine hbraced.1.beside ⟨?_, by simpa using hlength⟩
      simp [Symbol.isForm_iff.1 hlimb]
  | termProduct =>
      rcases List.forall₂_map_right_iff.1 hspans with
        _ | ⟨hleft, _ | ⟨hop, _ | ⟨hright, _ | _⟩⟩⟩
      obtain ⟨k, _, hk⟩ := (hsound _ (by simp)).yields hop
      refine ⟨fun hbare => absurd hbare ?_, by simp [Production.lhs]⟩
      exact not_bare_of_three ((hsound _ (by simp)).yields hleft) hk
        ((hsound _ (by simp)).yields hright)
  | arithmeticSum =>
      rcases List.forall₂_map_right_iff.1 hspans with
        _ | ⟨hleft, _ | ⟨hop, _ | ⟨hright, _ | _⟩⟩⟩
      obtain ⟨k, _, hk⟩ := (hsound _ (by simp)).yields hop
      refine ⟨fun hbare => absurd hbare ?_,
        fun _ => hbraced.1.leading (Symbol.isForm_iff.1 hleft)⟩
      exact not_bare_of_three ((hsound _ (by simp)).yields hleft) hk
        ((hsound _ (by simp)).yields hright)
  | _ =>
      refine ⟨?_, by simp [Production.lhs]⟩
      rintro ⟨hform, _⟩
      simp [Production.lhs] at hform

/-! ## The invariant -/

/--
The limbs at hand are sound and braced, and the last one, if it is an
expression, is a statement.
-/
structure Grown (limbs : List Limb) : Prop where
  sound : ∀ limb ∈ limbs, limb.Sound
  braced : AllBraced false limbs false
  ended :
    ∀ limb, limbs.getLast? = some limb → limb.symbol = .nonterminal .expr →
      Derives .statement limb.kinds

namespace Grown

theorem nil :
    Grown [] where
  sound := by
    simp
  braced := trivial
  ended := by
    simp

/-- An operator more behind a limb does no harm. -/
theorem braced_of_opens
    {before : Bool}
    {limbs : List Limb}
    (behind : Bool)
    (h : AllBraced before limbs false) :
    AllBraced before limbs behind := by
  induction limbs generalizing before with
  | nil =>
      trivial
  | cons limb rest ih =>
      refine ⟨⟨?_, h.1.leading⟩, ih h.2⟩
      intro hbare
      rcases h.1.beside hbare with hbefore | hbehind
      · exact .inl hbefore
      · cases rest with
        | nil =>
            simp [opens] at hbehind
        | cons next rest =>
            exact .inr hbehind

/-- The invariant holds after a token is shifted. -/
theorem shift
    {limbs : List Limb}
    (h : Grown limbs)
    (token : Token) :
    Grown (limbs ++ [leaf token]) := by
  refine ⟨?_, ?_, ?_⟩
  · intro limb hlimb
    rcases List.mem_append.1 hlimb with hlimb | hlimb
    · exact h.sound limb hlimb
    · obtain rfl := List.mem_singleton.1 hlimb
      simp [Sound]
  · rw [allBraced_append]
    refine ⟨braced_of_opens _ h.braced, ⟨?_, ?_⟩, trivial⟩
    · rintro ⟨hform, _⟩
      simp at hform
    · simp
  · intro limb hlast hexpr
    obtain rfl : leaf token = limb := by
      simpa using hlast
    simp at hexpr

/-- An item in surroundings that allow it yields a statement or an expression. -/
theorem item_yields
    {mode : Mode}
    {before window behind : List Limb}
    (hsound : ∀ limb ∈ window, limb.Sound)
    (hbraced : AllBraced (closes false before) window (opens behind false))
    (happlies :
      Production.expression.Applies mode
        (symbols before) (symbols window) (symbols behind)) :
    Derives .item (window.flatMap kinds) ∧
      (behind = [] → Derives .statement (window.flatMap kinds)) := by
  obtain ⟨limb, rest, hlimb, hrest, rfl⟩ :=
    List.forall₂_cons_left_iff.1 (List.forall₂_map_right_iff.1 happlies.spans)
  obtain rfl := List.forall₂_nil_left_iff.1 hrest
  have hlimbSound := hsound limb (by simp)
  rw [List.flatMap_cons, List.flatMap_nil, List.append_nil]
  by_cases hform : limb.symbol = .nonterminal .arithExp
  · have hallowed := happlies.allowed
    simp only [Production.allows, symbols_cons, symbols_nil, List.head?_cons,
      Option.any_some, Symbol.isForm_iff.2 hform, Bool.not_true, Bool.false_or] at hallowed
    -- The next symbol is known and no operator, and none is before: it is not bare.
    have hbehind : opens behind false = false := by
      rw [opens_eq_isSymbol behind mode]
      cases behind with
      | nil =>
          cases mode <;> rfl
      | cons next behind =>
          simpa [Next.of, Next.isSymbol] using hallowed
    have hnotBare : ¬ limb.Bare := by
      intro hbare
      rcases hbraced.1.beside hbare with hbefore | hafter
      · rw [hbraced.1.leading hform] at hbefore
        exact Bool.noConfusion hbefore
      · rw [opens, hbehind] at hafter
        exact Bool.noConfusion hafter
    simp only [Sound, hform, Nonterminal.Yields] at hlimbSound
    refine ⟨.arithmetic (hlimbSound.arithmetic ?_), ?_⟩
    · intro hlength
      exact hnotBare ⟨by simp [hform], hlength⟩
    · rintro rfl
      cases mode <;> simp [Next.of, Next.isSymbol] at hallowed
  · have hstatement : Derives .statement limb.kinds := by
      cases hsymbol : limb.symbol with
      | terminal token =>
          simp [hsymbol, Expect.admits, Symbol.isForm, Symbol.form?] at hlimb
      | nonterminal form =>
          simp only [Sound, hsymbol] at hlimbSound
          rw [hsymbol] at hlimb hform
          cases form <;>
            simp_all [Expect.admits, Symbol.isForm, Symbol.form?, Nonterminal.Yields]
    exact ⟨.statement hstatement, fun _ => hstatement⟩

/-- The invariant holds after a reduction. -/
theorem splice
    {mode : Mode}
    {limbs : List Limb}
    {p : Production}
    {r : Reduction}
    (hnext : nextReduction? mode (symbols limbs) = some (p, r))
    (h : Grown limbs) :
    Grown (Limb.splice limbs r) := by
  obtain ⟨before, window, behind, rfl, rfl, happlies⟩ := nextReduction?_limbs hnext
  have hbraced := h.braced
  rw [List.append_assoc, allBraced_append, allBraced_append, opens_append] at hbraced
  obtain ⟨hbefore, hwindow, hbehind⟩ := hbraced
  obtain ⟨hopens, hcloses⟩ :=
    ends_of_spans happlies.spans (closes false before) (opens behind false)
  rw [hopens] at hbefore
  rw [hcloses] at hbehind
  have hsound : ∀ limb ∈ window, limb.Sound := by
    intro limb hlimb
    exact h.sound limb (by simp [hlimb])
  rw [splice_append]
  refine ⟨?_, ?_, ?_⟩
  · intro limb hlimb
    simp only [List.mem_append, List.mem_cons] at hlimb
    rcases hlimb with hlimb | rfl | hlimb
    · exact h.sound limb (by simp [hlimb])
    · refine sound_phrase hsound happlies.spans ?_
      rintro rfl
      exact (item_yields hsound hwindow happlies).1
    · exact h.sound limb (by simp [hlimb])
  · rw [allBraced_append]
    exact ⟨hbefore, braced_phrase hsound hwindow happlies, hbehind⟩
  · intro limb hlast hexpr
    cases behind with
    | nil =>
        obtain rfl : phrase p.lhs window = limb := by
          simpa using hlast
        obtain rfl : p = .expression := by
          cases p <;> simp_all [Production.lhs]
        rw [kinds_phrase]
        exact (item_yields hsound hwindow happlies).2 rfl
    | cons next behind =>
        refine h.ended limb ?_ hexpr
        rw [← hlast]
        simp [List.getLast?_cons]

/-- The invariant holds after settling. -/
theorem settles
    {mode : Mode}
    {guard : List Symbol → Bool}
    {limbs last : List Limb}
    (h : Grown limbs)
    (hsettles : Settles mode guard limbs last) :
    Grown last :=
  hsettles.preserves (fun _ _ _ hnext => splice hnext) h

/-- The invariant holds after reading. -/
theorem reads
    {guard : List Symbol → Bool}
    {limbs last : List Limb}
    {tokens : List Token}
    (h : Grown limbs)
    (hreads : Reads guard limbs tokens last) :
    Grown last := by
  induction hreads with
  | nil =>
      exact h
  | cons hsettles _ ih =>
      exact ih ((h.shift _).settles hsettles)

/-- What may stand as a whole item yields one. -/
theorem item_of_accepting
    {limb : Limb}
    (hsound : limb.Sound)
    (haccepting : limb.symbol.isAccepting = true) :
    Derives .item limb.kinds ∧
      (limb.symbol ≠ .nonterminal .expr → Derives .statement limb.kinds) := by
  cases hsymbol : limb.symbol with
  | terminal token =>
      simp [hsymbol, Symbol.isAccepting, Symbol.form?] at haccepting
  | nonterminal form =>
      simp only [Sound, hsymbol] at hsound
      rw [hsymbol] at haccepting
      cases form with
      | expr =>
          exact ⟨hsound, fun hne => absurd rfl hne⟩
      | decStmt | orbitStmt | whirlLoop | launchWhirlLoop =>
          exact ⟨.statement hsound, fun _ => hsound⟩
      | _ =>
          simp [Symbol.isAccepting, Symbol.form?, Nonterminal.isAccepting] at haccepting

/-- Limbs that may stand as whole items yield so many items. -/
theorem items_of_accepting
    {limbs : List Limb}
    (hsound : ∀ limb ∈ limbs, limb.Sound)
    (haccepting : ∀ limb ∈ limbs, limb.symbol.isAccepting = true) :
    Derives (.items limbs.length) (limbs.flatMap kinds) := by
  induction limbs with
  | nil =>
      exact .none
  | cons limb rest ih =>
      have hitem := item_of_accepting (hsound limb (by simp)) (haccepting limb (by simp))
      have hrest := ih (fun other hother => hsound other (by simp [hother]))
        (fun other hother => haccepting other (by simp [hother]))
      exact Derives.more hitem.1 hrest

/-- Whole items, the last of which is a statement, are a program. -/
theorem program_of_accepting
    {limbs : List Limb}
    (h : Grown limbs)
    (haccepting : (symbols limbs).all Symbol.isAccepting = true) :
    Program (limbs.flatMap kinds) := by
  have hall : ∀ limb ∈ limbs, limb.symbol.isAccepting = true := by
    simpa [symbols] using haccepting
  rcases List.eq_nil_or_concat' limbs with rfl | ⟨front, last, rfl⟩
  · exact .inl rfl
  · have hlast :=
      item_of_accepting (h.sound last (by simp)) (hall last (by simp))
    have hstatement : Derives .statement last.kinds := by
      by_cases hexpr : last.symbol = .nonterminal .expr
      · exact h.ended last (by simp) hexpr
      · exact hlast.2 hexpr
    have hfront : Derives (.items front.length) (front.flatMap kinds) :=
      items_of_accepting (fun limb hlimb => h.sound limb (by simp [hlimb]))
        (fun limb hlimb => hall limb (by simp [hlimb]))
    refine .inr (.inl ⟨front.length + 1, front.length, _, _, rfl, hfront, hstatement, ?_⟩)
    simp

/-- A single arithmetic expression is one of the grammar. -/
theorem arithmetic_of_single
    {limb : Limb}
    (h : Grown [limb])
    (hform : limb.symbol = .nonterminal .arithExp) :
    Arithmetic limb.kinds := by
  have hsound := h.sound limb (by simp)
  simp only [Sound, hform, Nonterminal.Yields] at hsound
  refine hsound.arithmetic ?_
  intro hlength
  rcases h.braced.1.beside ⟨by simp [hform], hlength⟩ with hbefore | hbehind
  · exact Bool.noConfusion hbefore
  · exact Bool.noConfusion hbehind

end Grown
end Limb

namespace Derivation

/-- The kinds of the tokens of an accepted program are a sentence of the grammar. -/
theorem program_of_accepted
    {tokens : List Token}
    (haccepted : (parse tokens).verdict = .accept) :
    Program (tokens.map Token.kind) := by
  obtain ⟨limbs, hreads⟩ := Limb.exists_reads [] tokens
  have hkinds : limbs.flatMap Limb.kinds = tokens.map Token.kind := by
    rw [← Limb.map_kind_leaves, hreads.leaves_eq]
    rfl
  have hgrown := Limb.Grown.nil.reads hreads
  cases haccepting : (Limb.symbols limbs).all Symbol.isAccepting with
  | true =>
      rw [← hkinds]
      exact hgrown.program_of_accepting haccepting
  | false =>
      obtain ⟨last, hsettles⟩ := Limb.exists_settles .fallback limbs
      obtain ⟨limb, rfl, hform⟩ :=
        (parse_of_not_accepting hreads haccepting hsettles).1.1 haccepted
      have hkindsLast : limb.kinds = tokens.map Token.kind := by
        rw [← hkinds, ← Limb.map_kind_leaves, ← hsettles.leaves_eq, Limb.map_kind_leaves]
        simp
      rw [← hkindsLast]
      exact .inr (.inr ((hgrown.settles hsettles).arithmetic_of_single hform))

end Derivation
end CometLang
