import CometLang.Proofs.Gathering
import CometLang.Proofs.Shape

/-!
# Reading expressions

The tokens of an arithmetic expression, of a condition or of an argument are
read into limbs that show it. An arithmetic expression stays pending until
something behind it says that it is complete; conditions and arguments are
complete in themselves.
-/

namespace CometLang

open Limb

/-! ## Arithmetic expressions -/

namespace Pending

/-- What may not follow a sign of assignment while a value is read. -/
def endings : List (List Expect) :=
  [[.value, .kind .semicolon], [.kind .reception]]

/-- The guard under which values are read. -/
abbrev guard : List Symbol → Bool :=
  Guard.avoids endings

theorem guard_sketchable :
    Sketchable guard :=
  Guard.avoids_sketchable endings

/-- The kinds of the tokens that stand for values. -/
def operandKinds : List Kind :=
  [.identifier, .cometLiteral]

/-- The kinds of the tokens that stand for operations. -/
def operatorKinds : List Kind :=
  [.plus, .minus, .star, .slash]

/-- An operand alone. -/
def started : List (List Symbol) :=
  [[.nonterminal .identifier], [.nonterminal .cometLiteral]]

/-- An expression that ends with an operator. -/
def opened : List (List Symbol) :=
  [[.nonterminal .term, Kind.star.sketch],
   [.nonterminal .term, Kind.slash.sketch],
   [.nonterminal .arithExp, Kind.plus.sketch],
   [.nonterminal .arithExp, Kind.minus.sketch],
   [.nonterminal .arithExp, Kind.plus.sketch, .nonterminal .term, Kind.star.sketch],
   [.nonterminal .arithExp, Kind.plus.sketch, .nonterminal .term, Kind.slash.sketch],
   [.nonterminal .arithExp, Kind.minus.sketch, .nonterminal .term, Kind.star.sketch],
   [.nonterminal .arithExp, Kind.minus.sketch, .nonterminal .term, Kind.slash.sketch]]

/-- An expression that may be complete. -/
def complete : List (List Symbol) :=
  [[.nonterminal .term],
   [.nonterminal .arithExp, Kind.plus.sketch, .nonterminal .term],
   [.nonterminal .arithExp, Kind.minus.sketch, .nonterminal .term]]

theorem leads_started :
    ∀ w ∈ [[]], ∀ k ∈ operandKinds, leads guard started w k = true := by
  decide

theorem leads_opened_of_started :
    ∀ w ∈ started, ∀ k ∈ operatorKinds, leads guard opened w k = true := by
  decide

theorem leads_opened :
    ∀ w ∈ complete, ∀ k ∈ operatorKinds, leads guard opened w k = true := by
  decide

theorem leads_complete :
    ∀ w ∈ opened, ∀ k ∈ operandKinds, leads guard complete w k = true := by
  decide

/-- What shows that an item in front of it is complete. -/
def enders : List Symbol :=
  [Kind.closeBrace.sketch, Kind.comet.sketch, Kind.transmission.sketch,
   Kind.orbit.sketch, Kind.whirl.sketch, Kind.launch.sketch,
   .nonterminal .identifier, .nonterminal .cometLiteral]

/-- What shows that an expression in front of it is complete. -/
def closers : List Symbol :=
  Kind.semicolon.sketch :: enders

theorem closes :
    ∀ w ∈ complete, ∀ s ∈ closers,
      guard (w ++ [s]) = true ∧
        (nextReduction? .primary (w ++ [s])).map Prod.snd
          = some ⟨0, w.length, .arithExp⟩ := by
  decide

end Pending

namespace Abstract

theorem Operand.kind_mem
    {o : Operand}
    {token : Token}
    (h : o.piece.Matches token) :
    token.kind ∈ Pending.operandKinds := by
  rw [h.kind]
  cases o <;> simp [piece, Name.piece, Pending.operandKinds]

theorem Operator.kind_mem
    {o : Operator}
    {token : Token}
    (h : o.piece.Matches token) :
    token.kind ∈ Pending.operatorKinds := by
  rw [h.kind]
  cases o <;> simp [piece, Piece.fixed, Pending.operatorKinds]

/-- Operations behind a complete expression leave it complete. -/
theorem exists_reads_operations
    {operations : List Operation}
    {tokens : List Token}
    {limbs : List Limb}
    (hspelt : Spelt (operations.flatMap Operation.pieces) tokens)
    (hlimbs : sketch limbs ∈ Pending.complete) :
    ∃ last, Reads Pending.guard limbs tokens last ∧ sketch last ∈ Pending.complete := by
  have hguard := Pending.guard_sketchable
  induction operations generalizing tokens limbs with
  | nil =>
      cases hspelt with
      | nil =>
          exact ⟨limbs, .nil, hlimbs⟩
  | cons operation operations ih =>
      cases hspelt with
      | cons hoperator hspelt =>
      cases hspelt with
      | cons hoperand hspelt =>
      obtain ⟨next, hfirst, hnext⟩ :=
        exists_reads_of_leads hguard Pending.leads_opened hlimbs (Operator.kind_mem hoperator)
      obtain ⟨next', hsecond, hnext'⟩ :=
        exists_reads_of_leads hguard Pending.leads_complete hnext (Operand.kind_mem hoperand)
      obtain ⟨last, hrest, hlast⟩ := ih hspelt hnext'
      exact ⟨last, hfirst.append (hsecond.append hrest), hlast⟩

/-- The tokens of an arithmetic expression are read to a complete expression. -/
theorem Arithmetic.exists_reads
    {a : Arithmetic}
    {tokens : List Token}
    (hspelt : Spelt a.pieces tokens) :
    ∃ last, Reads Pending.guard [] tokens last ∧ sketch last ∈ Pending.complete := by
  have hguard := Pending.guard_sketchable
  have hnil : sketch [] ∈ ([[]] : List (List Symbol)) := List.mem_singleton.2 rfl
  cases hspelt with
  | cons hfirst hspelt =>
  cases hspelt with
  | cons hoperator hspelt =>
  cases hspelt with
  | cons hoperand hspelt =>
  obtain ⟨started, hreads, hstarted⟩ :=
    exists_reads_of_leads hguard Pending.leads_started hnil (Operand.kind_mem hfirst)
  obtain ⟨opened, hreads', hopened⟩ :=
    exists_reads_of_leads hguard Pending.leads_opened_of_started hstarted
      (Operator.kind_mem hoperator)
  obtain ⟨complete, hreads'', hcomplete⟩ :=
    exists_reads_of_leads hguard Pending.leads_complete hopened (Operand.kind_mem hoperand)
  obtain ⟨last, hrest, hlast⟩ := exists_reads_operations hspelt hcomplete
  exact ⟨last, hreads.append (hreads'.append (hreads''.append hrest)), hlast⟩

end Abstract

namespace Limb

/-- A complete expression is gathered once it is known to be complete. -/
theorem fires_arithmetic
    {limbs : List Limb}
    {closer : Limb}
    (hlimbs : sketch limbs ∈ Pending.complete)
    (hcloser : closer.symbol.sketch ∈ Pending.closers) :
    Fires Pending.guard (limbs ++ [closer]) [phrase .arithExp limbs, closer] := by
  obtain ⟨hguard, hnext⟩ := Pending.closes _ hlimbs _ hcloser
  have hsketch : sketch (limbs ++ [closer]) = sketch limbs ++ [closer.symbol.sketch] := by
    simp
  have hfires := fires_of_sketch Pending.guard_sketchable hsketch hguard hnext
  rw [length_sketch, splice_front] at hfires
  exact hfires

end Limb
/-! ## Conditions -/

/-- The symbols close neither a block nor a parenthesis. -/
def Guard.withoutParen (symbols : List Symbol) : Bool :=
  Guard.avoids [] symbols && !symbols.any (·.isKind .closeParen)

theorem Guard.withoutParen_sketchable :
    Sketchable Guard.withoutParen := by
  intro symbols
  rw [withoutParen, withoutParen, avoids_sketchable]
  simp [List.any_map, Function.comp_def]

/-- A chain does not end where no parenthesis is closed. -/
theorem Production.widthAt?_logicalExpression
    {symbols : List Symbol}
    (before : Option Symbol)
    (h : symbols.any (·.isKind .closeParen) = false) :
    Production.logicalExpression.widthAt? .primary before symbols = none := by
  rw [widthAt?, Option.filter_eq_none_iff]
  intro width _
  have hnext : (Next.of symbols width .primary).isSymbol (·.isKind .closeParen) = false := by
    cases hget : symbols[width]? with
    | none =>
        simp [Next.of, hget, Next.isSymbol]
    | some s =>
        have hs := List.any_eq_false.1 h s (List.mem_of_getElem? hget)
        simpa [Next.of, hget, Next.isSymbol] using hs
  simp [allows, hnext]

/-- In a chain no window starts but that of the chain itself. -/
theorem Production.clears_chain
    (p : Production) :
    p = .logicalExpression ∨
      (∀ before, p.clears [] before [.nonterminal .relationalExp] = true) ∧
        p.clears [] none [.nonterminal .logicalOp, .nonterminal .relationalExp] = true := by
  cases p with
  | logicalExpression =>
      exact .inl rfl
  | _ =>
      exact .inr ⟨fun _ => rfl, rfl⟩

/-- What is read behind a comparison does not mix with it. -/
theorem Limb.separates_comparison :
    Separates Guard.withoutParen Guard.withoutParen [.nonterminal .relationalExp] := by
  refine ⟨rfl, ?_, ?_⟩
  · intro rest hrest p
    simp only [Guard.withoutParen, Bool.and_eq_true, Bool.not_eq_true'] at hrest
    refine ⟨?_, trivial⟩
    rcases p.clears_chain with rfl | ⟨hclears, -⟩
    · exact Production.widthAt?_logicalExpression none hrest.2
    · exact Production.widthAt?_of_clears (hclears none) hrest.1
  · intro rest hrest
    simp only [Guard.withoutParen, Bool.and_eq_true] at hrest ⊢
    exact ⟨rfl, hrest.2⟩

/-- What is read behind a connective and a comparison does not mix with them. -/
theorem Limb.separates_link :
    Separates Guard.withoutParen Guard.withoutParen
      [.nonterminal .logicalOp, .nonterminal .relationalExp] := by
  refine ⟨rfl, ?_, ?_⟩
  · intro rest hrest p
    simp only [Guard.withoutParen, Bool.and_eq_true, Bool.not_eq_true'] at hrest
    rcases p.clears_chain with rfl | ⟨hclears, hclears'⟩
    · exact ⟨Production.widthAt?_logicalExpression none hrest.2,
        Production.widthAt?_logicalExpression _ hrest.2, trivial⟩
    · exact ⟨Production.widthAt?_of_clears hclears' hrest.1,
        Production.widthAt?_of_clears (hclears _) hrest.1, trivial⟩
  · intro rest hrest
    simp only [Guard.withoutParen, Bool.and_eq_true] at hrest ⊢
    exact ⟨rfl, hrest.2⟩

namespace Chain

/-- What may not follow the word of a guard while the guard is read. -/
def endings : List (List Expect) :=
  [[.form .conditionalExp, .form .stmt], [.form .conditionalExp, .kind .semicolon]]

/-- The guard under which conditions are read. -/
abbrev guard : List Symbol → Bool :=
  Guard.avoids endings

theorem guard_sketchable :
    Sketchable guard :=
  Guard.avoids_sketchable endings

/-- The kinds of the operands, with the phrases they are gathered into. -/
def operands : List (Kind × Nonterminal) :=
  [(.identifier, .identifier), (.cometLiteral, .cometLiteral)]

def comparators : List Kind :=
  [.equals, .notEquals, .greater, .less, .greaterEquals, .lessEquals]

/-- What happens while a comparison is read at an index. -/
def comparisonPlan
    (index : Nat)
    (left right : Nonterminal) : List (List Reduction) :=
  [[⟨index, 1, left⟩],
   [⟨index + 1, 1, .relationalOp⟩],
   [⟨index + 2, 1, right⟩, ⟨index, 3, .relationalExp⟩]]

theorem plan_comparison :
    ∀ w ∈ [[], [.nonterminal .logicalOp]], ∀ left ∈ operands, ∀ k ∈ comparators,
      ∀ right ∈ operands,
        plan? Guard.withoutParen w [left.1, k, right.1]
          = some (comparisonPlan w.length left.2 right.2) := by
  decide

theorem plan_connective :
    ∀ k ∈ [Kind.and, Kind.or],
      plan? Guard.withoutParen [] [k] = some [[⟨0, 1, .logicalOp⟩]] := by
  decide

/-- What may not follow an opening parenthesis. -/
def parenEndings : List (List Expect) :=
  [[.condition, .kind .closeParen], [.ioArgument, .kind .closeParen]]

/-- Where no parenthesis is closed, none is closed too early. -/
theorem avoids_of_withoutParen
    (symbols : List Symbol)
    (h : Guard.withoutParen symbols = true) :
    Guard.avoids parenEndings symbols = true := by
  rw [Guard.withoutParen, Bool.and_eq_true] at h
  obtain ⟨havoids, hparen⟩ := h
  have hends (place : Expect) : Rhs.fits [place, .kind .closeParen] symbols = false := by
    match symbols with
    | [] =>
        rfl
    | [_] =>
        simp [Rhs.fits]
    | _ :: _ :: _ =>
        simp_all [Rhs.fits, Expect.admits]
  rw [Guard.avoids, Bool.and_eq_true] at havoids ⊢
  exact ⟨havoids.1, by simp [parenEndings, hends]⟩

theorem schedule_condition :
    ∀ s ∈ [Symbol.nonterminal .relationalExp, .nonterminal .logicalExp],
      schedule? .primary guard 6 [Kind.openParen.sketch, s, Kind.closeParen.sketch]
        = some [⟨0, 3, .conditionalExp⟩] := by
  decide

end Chain

namespace Limb

/-- What is read behind an opening parenthesis does not mix with it. -/
theorem separates_paren
    {opening : Token}
    (hopening : opening.kind = .openParen) :
    Separates (Guard.avoids Chain.parenEndings) Chain.guard (symbols [leaf opening]) := by
  have hsketch : sketch [leaf opening] = [Kind.openParen.sketch] := by
    rw [← hopening]
    rfl
  refine separates_of_clear Chain.guard_sketchable ?_ ?_ ?_ <;> rw [hsketch]
  · decide
  · rfl
  · intro rest _
    rfl

/-- What stands in parentheses is a condition. -/
theorem settles_condition
    {opening closing : Token}
    (inner : Limb)
    (hopening : opening.kind = .openParen)
    (hinner : inner.symbol ∈ [Symbol.nonterminal .relationalExp, .nonterminal .logicalExp])
    (hclosing : closing.kind = .closeParen) :
    Settles .primary Chain.guard [leaf opening, inner, leaf closing]
      [phrase .conditionalExp [leaf opening, inner, leaf closing]] := by
  have hsketch :
      sketch [leaf opening, inner, leaf closing]
        = [Kind.openParen.sketch, inner.symbol, Kind.closeParen.sketch] := by
    simp only [List.mem_cons, List.not_mem_nil, or_false] at hinner
    rcases hinner with hform | hform <;>
      simp [sketch, Symbol.sketch, hopening, hform, hclosing]
  exact settles_of_schedule 6 _ [⟨0, 3, .conditionalExp⟩] Chain.guard_sketchable hsketch
    (Chain.schedule_condition _ hinner)

end Limb

namespace Abstract

theorem Operand.form_mem
    (o : Operand) :
    (o.piece.kind, o.form) ∈ Chain.operands := by
  cases o <;> simp [piece, Name.piece, form, Chain.operands]

theorem Comparator.kind_mem
    (c : Comparator) :
    c.kind ∈ Chain.comparators := by
  cases c <;> decide

theorem Connective.kind_mem
    (c : Connective) :
    c.kind ∈ [Kind.and, Kind.or] := by
  cases c <;> decide

/-- A comparison is read in front or right behind a connective. -/
theorem Comparison.exists_reads
    {c : Comparison}
    {tokens : List Token}
    {front : List Limb}
    (hspelt : Spelt c.pieces tokens)
    (hfront : sketch front ∈ [[], [.nonterminal .logicalOp]]) :
    ∃ limb,
      Reads Guard.withoutParen front tokens (front ++ [limb]) ∧
        limb.symbol = .nonterminal .relationalExp ∧ c.Shows limb.tree := by
  cases hspelt with
  | @cons _ left _ _ hleft hspelt =>
  cases hspelt with
  | @cons _ sign _ _ hsign hspelt =>
  cases hspelt with
  | @cons _ right _ _ hright hspelt =>
  cases hspelt with
  | nil =>
  refine ⟨phrase .relationalExp
    [phrase c.left.form [leaf left], phrase .relationalOp [leaf sign],
      phrase c.right.form [leaf right]], ?_, rfl, ?_⟩
  · have hkinds : [left, sign, right].map Token.kind
        = [c.left.piece.kind, c.comparator.kind, c.right.piece.kind] := by
      simp [hleft.kind, hsign.kind, hright.kind, Piece.fixed]
    have hplan := Chain.plan_comparison _ hfront _ c.left.form_mem _
      c.comparator.kind_mem _ c.right.form_mem
    have hreads := reads_of_plan front _ _ Guard.withoutParen_sketchable rfl hkinds hplan
    simp only [List.mem_cons, List.not_mem_nil, or_false] at hfront
    rcases hfront with hnil | hone
    · obtain rfl : front = [] := by simpa [sketch, symbols] using hnil
      exact hreads
    · obtain ⟨x, rfl⟩ : ∃ x, front = [x] := by
        simpa [sketch, symbols, List.length_eq_one_iff] using congrArg List.length hone
      exact hreads
  · exact ⟨_, sign, _, rfl, ⟨left, hleft, rfl⟩, hsign.kind, ⟨right, hright, rfl⟩⟩

/-- Connectives are read, each with its comparison behind it. -/
theorem Link.exists_reads
    {links : List Link}
    {tokens : List Token}
    (hspelt : Spelt (links.flatMap Link.pieces) tokens) :
    ∃ limbs,
      Reads Guard.withoutParen [] tokens limbs ∧
        symbols limbs
          = (List.replicate links.length
              [Symbol.nonterminal .logicalOp, Symbol.nonterminal .relationalExp]).flatten ∧
        Link.Show links (trees limbs) := by
  induction links generalizing tokens with
  | nil =>
      cases hspelt with
      | nil =>
          exact ⟨[], .nil, rfl, rfl⟩
  | cons link links ih =>
      rw [List.flatMap_cons, Link.pieces] at hspelt
      obtain ⟨sign, rest, rfl, hsign, hrest⟩ := spelt_cons hspelt
      obtain ⟨us, vs, rfl, hcomparison, hlinks⟩ := spelt_append hrest
      obtain ⟨limbs, hreads, hsymbols, hshow⟩ := ih hlinks
      let connective := phrase .logicalOp [leaf sign]
      have hconnective : sketch [connective] ∈ [[], [.nonterminal .logicalOp]] :=
        List.mem_cons_of_mem _ (List.mem_singleton.2 rfl)
      obtain ⟨comparison, hreads', hform, hshows⟩ :=
        Comparison.exists_reads hcomparison hconnective
      have hfirst : Reads Guard.withoutParen [] [sign] [connective] :=
        reads_of_plan [] [sign] _ Guard.withoutParen_sketchable rfl rfl
          (Chain.plan_connective sign.kind (hsign.kind ▸ link.connective.kind_mem))
      have hseparates : Separates Guard.withoutParen Guard.withoutParen
          (symbols [connective, comparison]) := by
        rw [symbols_cons, symbols_cons, hform]
        exact separates_link
      have hbehind := hreads.behind hseparates
      refine ⟨connective :: comparison :: limbs,
        hfirst.append (hreads'.append hbehind), ?_, ?_⟩
      · simp [hsymbols, hform, List.replicate_succ, connective]
      · exact ⟨sign, comparison.tree, trees limbs, rfl, hsign.kind, hshows, hshow⟩

/-- A condition is read to the phrase that shows it. -/
theorem Condition.exists_reads
    {c : Condition}
    {tokens : List Token}
    (hspelt : Spelt c.pieces tokens) :
    ∃ limb,
      Reads Chain.guard [] tokens [limb] ∧
        limb.symbol = .nonterminal .conditionalExp ∧ c.Shows limb.tree := by
  obtain ⟨opening, rest, rfl, hopening, hrest⟩ := spelt_cons hspelt
  obtain ⟨inner, ends, rfl, hinner, hends⟩ := spelt_append hrest
  obtain ⟨us, vs, rfl, hfirst, hlinks⟩ := spelt_append hinner
  obtain ⟨closing, rfl, hclosing⟩ := spelt_one hends
  have hnil : sketch [] ∈ [[], [.nonterminal .logicalOp]] := List.mem_cons_self
  obtain ⟨comparison, hreads, hform, hshows⟩ := Comparison.exists_reads hfirst hnil
  obtain ⟨limbs, hreads', hsymbols, hshow⟩ := Link.exists_reads hlinks
  have hseparates : Separates Guard.withoutParen Guard.withoutParen (symbols [comparison]) := by
    rw [symbols_cons, hform]
    exact separates_comparison
  have hbehind := hreads'.behind hseparates
  have hchain : Reads Guard.withoutParen [] (us ++ vs) (comparison :: limbs) :=
    hreads.append hbehind
  have hparen := separates_paren hopening.kind
  have hopen : Reads Chain.guard [] [opening] [leaf opening] :=
    reads_of_plan [] [opening] [[]] Chain.guard_sketchable rfl (congrArg (· :: []) hopening.kind)
      (by decide)
  have hinside := (hchain.behind (separates_nil Chain.avoids_of_withoutParen)).behind hparen
  have hbefore := hopen.append hinside
  cases hc : c.links with
  | nil =>
      rw [hc] at hsymbols hshow
      obtain rfl : limbs = [] := List.map_eq_nil_iff.1 hsymbols
      have hclose := settles_condition comparison hopening.kind
        (by simp [hform]) hclosing.kind
      refine ⟨_, hbefore.append (.single hclose), rfl, ?_⟩
      refine ⟨opening, comparison.tree, closing, rfl, ?_⟩
      rw [hc]
      exact hshows
  | cons link links =>
      rw [hc] at hsymbols hshow
      have hsymbols' : symbols (comparison :: limbs) = Rhs.chainOf (links.length + 1) := by
        rw [symbols_cons, hform, hsymbols]
        rfl
      have hgather := (fires_chain (Guard.avoids_sketchable Chain.parenEndings) hsymbols'
        hclosing.kind rfl).behind hparen
      have hclose := settles_condition (phrase .logicalExp (comparison :: limbs))
        hopening.kind (by simp) hclosing.kind
      refine ⟨_, hbefore.append (.single (hgather.settles hclose)), rfl, ?_⟩
      refine ⟨opening, _, closing, rfl, ?_⟩
      rw [hc]
      exact ⟨comparison.tree, trees limbs, rfl, hshows, hshow⟩

end Abstract
end CometLang
