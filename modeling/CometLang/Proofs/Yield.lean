import CometLang.Proofs.Sentence
import CometLang.Proofs.Settling

/-!
# What phrases yield

Every phrase stands for the sequences of kinds that the grammar allows for it,
and so does every place of a right-hand side. If the limbs of a window are
sound, that is, if the tokens below each of them are what its symbol stands for,
then the phrase over them is sound too. Only for an item something is left to be
shown, because a single operand is no arithmetic expression.
-/

namespace CometLang

open Sentence

/-! ## What phrases yield -/

/-- The sequences of kinds that a phrase stands for. -/
def Nonterminal.Yields : Nonterminal → List Kind → Prop
  | identifier, w => w = [.identifier]
  | cometLiteral, w => w = [.cometLiteral]
  | string, w => w = [.string]
  | relationalOp, w => ∃ k, k.isRelational = true ∧ w = [k]
  | logicalOp, w => ∃ k, k.isLogical = true ∧ w = [k]
  | factor, w | term, w | arithExp, w => Joined Operand Kind.isArithmetic w
  | relationalExp, w => Comparison w
  | logicalExp, w => Joined Comparison Kind.isLogical w
  | conditionalExp, w => Condition w
  | ioStmt, w => Argument w
  | expr, w => Derives .item w
  | stmt, w => Derives .block w
  | navigateStmt, w => ∃ c b, Condition c ∧ Derives .block b ∧ w = .navigate :: c ++ b
  | propelStmt, w => ∃ b, Derives .block b ∧ w = .propel :: b
  | decStmt, w | assignStmt, w | transmissionStmt, w | receptionStmt, w
  | orbitStmt, w | whirlLoop, w | launchWhirlLoop, w => Derives .statement w

/-- The sequences of kinds that may stand at a place of a right-hand side. -/
def Expect.Yields : Expect → List Kind → Prop
  | kind k, w => w = [k]
  | form n, w => n.Yields w
  | value, w => Value w
  | operand, w => Operand w
  | ioArgument, w => ∃ k, (k = .string ∨ k = .identifier) ∧ w = [k]
  | condition, w => Joined Comparison Kind.isLogical w
  | item, w => Derives .statement w ∨ Joined Operand Kind.isArithmetic w
  | relational, w => ∃ k, k.isRelational = true ∧ w = [k]
  | logical, w => ∃ k, k.isLogical = true ∧ w = [k]
  | additive, w | multiplicative, w => ∃ k, k.isArithmetic = true ∧ w = [k]

/-- Joined operands are a value. -/
theorem Sentence.Joined.value
    {w : List Kind}
    (h : Joined Operand Kind.isArithmetic w) :
    Value w := by
  cases h with
  | one hu =>
      exact .inl hu
  | more hu hk hv =>
      exact .inr ⟨_, _, _, hu, hk, hv, rfl⟩

/-- Joined operands that are more than one are an arithmetic expression. -/
theorem Sentence.Joined.arithmetic
    {w : List Kind}
    (h : Joined Operand Kind.isArithmetic w)
    (hlength : w.length ≠ 1) :
    Arithmetic w := by
  rcases h.value with ⟨k, _, rfl⟩ | harithmetic
  · simp at hlength
  · exact harithmetic

namespace Limb

/-- The kinds of the tokens below a limb. -/
def kinds (limb : Limb) : List Kind :=
  limb.tree.leaves.map Token.kind

@[simp] theorem kinds_leaf
    (token : Token) :
    (leaf token).kinds = [token.kind] := by
  simp [kinds]

/-- The kinds of the tokens below several limbs. -/
theorem map_kind_leaves
    (limbs : List Limb) :
    (leaves limbs).map Token.kind = limbs.flatMap kinds := by
  induction limbs with
  | nil =>
      rfl
  | cons limb limbs ih =>
      simp [ih, kinds]

@[simp] theorem kinds_phrase
    (form : Nonterminal)
    (limbs : List Limb) :
    (phrase form limbs).kinds = limbs.flatMap kinds := by
  simpa [kinds] using map_kind_leaves limbs

/-- The kinds below a limb are what its symbol stands for. -/
def Sound (limb : Limb) : Prop :=
  match limb.symbol with
  | .terminal token => limb.kinds = [token.kind]
  | .nonterminal form => form.Yields limb.kinds

/-- A limb yields what the place of a right-hand side that admits it asks for. -/
theorem Sound.yields
    {limb : Limb}
    {place : Expect}
    (hsound : limb.Sound)
    (hadmits : place.admits limb.symbol = true) :
    place.Yields limb.kinds := by
  cases hsymbol : limb.symbol with
  | terminal token =>
      simp only [Sound, hsymbol] at hsound
      rw [hsymbol] at hadmits
      rw [hsound]
      cases place <;>
        simp_all [Expect.admits, Expect.Yields, Symbol.isForm, Symbol.form?, Symbol.isKind,
          Symbol.kind?, Symbol.isAdditive, Symbol.isMultiplicative, Kind.isArithmetic]
  | nonterminal form =>
      simp only [Sound, hsymbol] at hsound
      rw [hsymbol] at hadmits
      cases place with
      | form n =>
          obtain rfl : form = n := by
            simpa [Expect.admits, Symbol.isForm, Symbol.form?] using hadmits
          exact hsound
      | value =>
          cases form <;>
            simp_all [Expect.admits, Symbol.isForm, Symbol.form?, Nonterminal.Yields]
          · exact .inl ⟨.identifier, rfl, rfl⟩
          · exact .inl ⟨.cometLiteral, rfl, rfl⟩
          · exact hsound.value
      | operand =>
          cases form <;>
            simp_all [Expect.admits, Symbol.isForm, Symbol.form?, Nonterminal.Yields]
          · exact ⟨.identifier, rfl, rfl⟩
          · exact ⟨.cometLiteral, rfl, rfl⟩
      | ioArgument =>
          cases form <;>
            simp_all [Expect.admits, Expect.Yields, Symbol.isForm, Symbol.form?,
              Nonterminal.Yields]
      | condition =>
          cases form <;>
            simp_all [Expect.admits, Expect.Yields, Symbol.isForm, Symbol.form?,
              Nonterminal.Yields]
          exact .one hsound
      | item =>
          cases form <;>
            simp_all [Expect.admits, Expect.Yields, Symbol.isForm, Symbol.form?,
              Nonterminal.Yields]
      | _ =>
          simp [Expect.admits, Symbol.isKind, Symbol.kind?, Symbol.isAdditive,
            Symbol.isMultiplicative] at hadmits

end Limb

/-! ## What windows yield -/

/--
A phrase with a fixed right-hand side yields what its places yield, one after
the other. Items are left out: what they yield depends on their surroundings.
-/
theorem Production.yields_of_places
    {p : Production}
    {places : List Expect}
    {ws : List (List Kind)}
    (hrhs : p.rhs = .sequence places)
    (hitem : p ≠ .expression)
    (h : List.Forall₂ Expect.Yields places ws) :
    p.lhs.Yields ws.flatten := by
  cases p with
  | string | identifier | cometLiteral =>
      obtain rfl := Rhs.sequence.inj hrhs
      rcases h with _ | ⟨rfl, _ | _⟩
      rfl
  | declaration =>
      obtain rfl := Rhs.sequence.inj hrhs
      rcases h with _ | ⟨rfl, _ | ⟨rfl, _ | ⟨rfl, _ | ⟨hv, _ | ⟨rfl, _ | _⟩⟩⟩⟩⟩
      simpa [lhs, Nonterminal.Yields] using Derives.declaration hv
  | assignment =>
      obtain rfl := Rhs.sequence.inj hrhs
      rcases h with _ | ⟨rfl, _ | ⟨rfl, _ | ⟨hv, _ | ⟨rfl, _ | _⟩⟩⟩⟩
      simpa [lhs, Nonterminal.Yields] using Derives.assignment hv
  | ioStatement =>
      obtain rfl := Rhs.sequence.inj hrhs
      rcases h with _ | ⟨rfl, _ | ⟨⟨k, hk, rfl⟩, _ | ⟨rfl, _ | ⟨rfl, _ | _⟩⟩⟩⟩
      exact ⟨k, hk, rfl⟩
  | transmission =>
      obtain rfl := Rhs.sequence.inj hrhs
      rcases h with _ | ⟨rfl, _ | ⟨ha, _ | _⟩⟩
      simpa [lhs, Nonterminal.Yields] using Derives.transmission ha
  | reception =>
      obtain rfl := Rhs.sequence.inj hrhs
      rcases h with _ | ⟨rfl, _ | ⟨rfl, _ | ⟨rfl, _ | ⟨ha, _ | _⟩⟩⟩⟩
      simpa [lhs, Nonterminal.Yields] using Derives.reception ha
  | relationalOperator | logicalOperator =>
      obtain rfl := Rhs.sequence.inj hrhs
      rcases h with _ | ⟨⟨k, hk, rfl⟩, _ | _⟩
      exact ⟨k, hk, rfl⟩
  | relationalExpression =>
      obtain rfl := Rhs.sequence.inj hrhs
      rcases h with _ | ⟨hu, _ | ⟨⟨k, hk, rfl⟩, _ | ⟨hv, _ | _⟩⟩⟩
      exact ⟨_, k, _, hu, hk, hv, by simp⟩
  | conditionalExpression =>
      obtain rfl := Rhs.sequence.inj hrhs
      rcases h with _ | ⟨rfl, _ | ⟨hv, _ | ⟨rfl, _ | _⟩⟩⟩
      exact ⟨_, hv, by simp⟩
  | factor =>
      obtain rfl := Rhs.sequence.inj hrhs
      rcases h with _ | ⟨hu, _ | _⟩
      simp only [List.flatten_cons, List.flatten_nil, List.append_nil]
      exact Joined.one hu
  | term | arithmeticExpression =>
      obtain rfl := Rhs.sequence.inj hrhs
      rcases h with _ | ⟨hu, _ | _⟩
      simp only [List.flatten_cons, List.flatten_nil, List.append_nil]
      exact hu
  | termProduct | arithmeticSum =>
      obtain rfl := Rhs.sequence.inj hrhs
      rcases h with _ | ⟨hu, _ | ⟨⟨k, hk, rfl⟩, _ | ⟨hv, _ | _⟩⟩⟩
      simpa [lhs, Nonterminal.Yields] using Joined.append hu hk hv
  | navigate =>
      obtain rfl := Rhs.sequence.inj hrhs
      rcases h with _ | ⟨rfl, _ | ⟨hc, _ | ⟨hb, _ | _⟩⟩⟩
      exact ⟨_, _, hc, hb, by simp⟩
  | propel =>
      obtain rfl := Rhs.sequence.inj hrhs
      rcases h with _ | ⟨rfl, _ | ⟨hb, _ | _⟩⟩
      exact ⟨_, hb, by simp⟩
  | orbit =>
      obtain rfl := Rhs.sequence.inj hrhs
      rcases h with _ | ⟨rfl, _ | ⟨hc, _ | ⟨hb, _ | ⟨rfl, _ | _⟩⟩⟩⟩
      simpa [lhs, Nonterminal.Yields] using Derives.orbit hc hb
  | orbitPropel =>
      obtain rfl := Rhs.sequence.inj hrhs
      rcases h with _ | ⟨rfl, _ | ⟨hc, _ | ⟨hb, _ | ⟨⟨b', hb', rfl⟩, _ | ⟨rfl, _ | _⟩⟩⟩⟩⟩
      simpa [lhs, Nonterminal.Yields] using Derives.orbitPropel hc hb hb'
  | orbitNavigatePropel =>
      obtain rfl := Rhs.sequence.inj hrhs
      rcases h with _ | ⟨rfl, _ | ⟨hc, _ | ⟨hb, _ | ⟨⟨c', b', hc', hb', rfl⟩,
        _ | ⟨⟨b'', hb'', rfl⟩, _ | ⟨rfl, _ | _⟩⟩⟩⟩⟩⟩
      simpa [lhs, Nonterminal.Yields] using Derives.orbitNavigatePropel hc hb hc' hb' hb''
  | whirlLoop =>
      obtain rfl := Rhs.sequence.inj hrhs
      rcases h with _ | ⟨rfl, _ | ⟨hc, _ | ⟨hb, _ | ⟨rfl, _ | _⟩⟩⟩⟩
      simpa [lhs, Nonterminal.Yields] using Derives.whirl hc hb
  | launchWhirlLoop =>
      obtain rfl := Rhs.sequence.inj hrhs
      rcases h with _ | ⟨rfl, _ | ⟨hb, _ | ⟨rfl, _ | ⟨hc, _ | ⟨rfl, _ | _⟩⟩⟩⟩⟩
      simpa [lhs, Nonterminal.Yields] using Derives.launch hb hc
  | expression =>
      exact absurd rfl hitem
  | logicalExpression | block =>
      cases hrhs

namespace Limb

/-- Pairs of a connective and a comparison prolong a chain. -/
theorem joined_of_links
    {count : Nat}
    {limbs : List Limb}
    {u : List Kind}
    (hsound : ∀ limb ∈ limbs, limb.Sound)
    (hsymbols :
      symbols limbs =
        (List.replicate count
          [Symbol.nonterminal .logicalOp, Symbol.nonterminal .relationalExp]).flatten)
    (hu : Joined Comparison Kind.isLogical u) :
    Joined Comparison Kind.isLogical (u ++ limbs.flatMap kinds) := by
  induction count generalizing limbs u with
  | zero =>
      obtain rfl : limbs = [] := by
        simpa [symbols] using hsymbols
      simpa using hu
  | succ count ih =>
      rw [List.replicate_succ, List.flatten_cons, List.cons_append, List.cons_append,
        List.nil_append] at hsymbols
      obtain ⟨op, more, rfl, hop, hmore⟩ := List.map_eq_cons_iff.1 hsymbols
      obtain ⟨comparison, rest, rfl, hcomparison, hrest⟩ := List.map_eq_cons_iff.1 hmore
      have hopSound := hsound op (by simp)
      have hcomparisonSound := hsound comparison (by simp)
      simp only [Sound, hop, Nonterminal.Yields] at hopSound
      simp only [Sound, hcomparison, Nonterminal.Yields] at hcomparisonSound
      obtain ⟨k, hk, hkinds⟩ := hopSound
      have hprolonged := hu.append hk (.one hcomparisonSound)
      have hall : ∀ limb ∈ rest, limb.Sound := by
        intro limb hlimb
        exact hsound limb (by simp [hlimb])
      simpa [hkinds] using ih hall hrest hprolonged

/-- Expressions one after the other are so many items. -/
theorem items_of_expressions
    {count : Nat}
    {limbs : List Limb}
    (hsound : ∀ limb ∈ limbs, limb.Sound)
    (hsymbols : symbols limbs = List.replicate count (.nonterminal .expr)) :
    Derives (.items count) (limbs.flatMap kinds) := by
  induction count generalizing limbs with
  | zero =>
      obtain rfl : limbs = [] := by
        simpa [symbols] using hsymbols
      exact .none
  | succ count ih =>
      rw [List.replicate_succ] at hsymbols
      obtain ⟨limb, rest, rfl, hlimb, hrest⟩ := List.map_eq_cons_iff.1 hsymbols
      have hitem := hsound limb (by simp)
      simp only [Sound, hlimb, Nonterminal.Yields] at hitem
      have hall : ∀ other ∈ rest, other.Sound := by
        intro other hother
        exact hsound other (by simp [hother])
      simpa using Derives.more hitem (ih hall hrest)

/--
A phrase over sound limbs that its production spans is sound. For an item this
has to be known from its surroundings.
-/
theorem sound_phrase
    {p : Production}
    {window : List Limb}
    (hsound : ∀ limb ∈ window, limb.Sound)
    (hspans : p.rhs.Spans (symbols window))
    (hitem : p = .expression → Derives .item (window.flatMap kinds)) :
    (phrase p.lhs window).Sound := by
  simp only [Sound, symbol_phrase, kinds_phrase]
  cases hrhs : p.rhs with
  | sequence places =>
      by_cases hp : p = .expression
      · subst hp
        exact hitem rfl
      · rw [hrhs] at hspans
        have hyields : List.Forall₂ Expect.Yields places (window.map kinds) := by
          rw [List.forall₂_map_right_iff]
          have hadmits := List.forall₂_map_right_iff.1 hspans
          clear hspans hrhs hitem
          induction hadmits with
          | nil =>
              exact .nil
          | cons hadmits _ ih =>
              refine .cons ((hsound _ (by simp)).yields hadmits) (ih ?_)
              intro limb hlimb
              exact hsound limb (by simp [hlimb])
        rw [List.flatMap_def]
        exact Production.yields_of_places hrhs hp hyields
  | chain =>
      rw [hrhs] at hspans
      obtain ⟨count, hsymbols⟩ := hspans
      obtain rfl : p = .logicalExpression := by
        cases p <;> simp_all [Production.rhs]
      obtain ⟨first, rest, rfl, hfirst, hrest⟩ := List.map_eq_cons_iff.1 hsymbols
      have hcomparison := hsound first (by simp)
      simp only [Sound, hfirst, Nonterminal.Yields] at hcomparison
      have hall : ∀ limb ∈ rest, limb.Sound := by
        intro limb hlimb
        exact hsound limb (by simp [hlimb])
      simpa [Production.lhs, Nonterminal.Yields] using
        joined_of_links hall hrest (.one hcomparison)
  | block =>
      rw [hrhs] at hspans
      obtain ⟨opening, closing, count, hopening, hclosing, hsymbols⟩ := hspans
      obtain rfl : p = .block := by
        cases p <;> simp_all [Production.rhs]
      obtain ⟨first, rest, rfl, hfirst, hrest⟩ := List.map_eq_cons_iff.1 hsymbols
      obtain ⟨items, lasts, rfl, hitems, hlasts⟩ := List.map_eq_append_iff.1 hrest
      obtain ⟨last, ends, rfl, hlast, hends⟩ := List.map_eq_cons_iff.1 hlasts
      obtain rfl : ends = [] := by
        simpa using hends
      have hfirstSound := hsound first (by simp)
      have hlastSound := hsound last (by simp)
      simp only [Sound, hfirst, hopening] at hfirstSound
      simp only [Sound, hlast, hclosing] at hlastSound
      have hall : ∀ limb ∈ items, limb.Sound := by
        intro limb hlimb
        exact hsound limb (by simp [hlimb])
      simpa [Production.lhs, Nonterminal.Yields, hfirstSound, hlastSound] using
        Derives.block (items_of_expressions hall hitems)

end Limb
end CometLang
