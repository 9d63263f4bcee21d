import CometLang.Proofs.Context

/-!
# Windows of any length

A chain of comparisons and a block can be arbitrarily long, so that their
windows cannot be found by computing with a sketch. They are found because no
production that is tried before them starts with one of their symbols.
-/

namespace CometLang

namespace Rhs

/-- A window with this right-hand side may start with the symbol. -/
def mayStart : Rhs → Symbol → Bool
  | sequence places, s => places.head?.all (·.admits s)
  | chain, s => s.isForm .relationalExp
  | block, s => s.isKind .openBrace

theorem width?_of_not_mayStart
    {rhs : Rhs}
    {s : Symbol}
    (h : rhs.mayStart s = false)
    (rest : List Symbol) :
    rhs.width? (s :: rest) = none := by
  cases rhs with
  | sequence places =>
      cases places with
      | nil =>
          simp [mayStart] at h
      | cons place places =>
          simp_all [mayStart, width?, fits]
  | chain =>
      simp_all [mayStart, width?]
  | block =>
      simp_all [mayStart, width?]

/-- A window starts with a symbol that it may start with. -/
theorem mayStart_of_spans
    {rhs : Rhs}
    {s : Symbol}
    {rest : List Symbol}
    (h : rhs.Spans (s :: rest)) :
    rhs.mayStart s = true := by
  cases rhs with
  | sequence places =>
      obtain _ | ⟨hadmits, _⟩ := h
      simpa [mayStart] using hadmits
  | chain =>
      obtain ⟨count, hwindow⟩ := h
      obtain ⟨rfl, -⟩ := List.cons.inj hwindow
      rfl
  | block =>
      obtain ⟨opening, closing, count, hopening, -, hwindow⟩ := h
      obtain ⟨rfl, -⟩ := List.cons.inj hwindow
      exact Symbol.isKind_iff.2 ⟨opening, rfl, hopening⟩

end Rhs

namespace Production

/-- No window starts with a gathered item. -/
theorem not_mayStart_expr
    (p : Production) :
    p.rhs.mayStart (.nonterminal .expr) = false := by
  cases p <;> rfl

/-- No window starts in symbols that it does not start with. -/
theorem skips_of_not_mayStart
    {p : Production}
    {front : List Symbol}
    (h : ∀ s ∈ front, p.rhs.mayStart s = false)
    (before : Option Symbol)
    (rest : List Symbol) :
    p.Skips before front rest := by
  induction front generalizing before with
  | nil =>
      trivial
  | cons s front ih =>
      refine ⟨?_, ih (fun t ht => h t (List.mem_cons_of_mem _ ht)) _⟩
      rw [widthAt?, Rhs.width?_of_not_mayStart (h s List.mem_cons_self)]
      rfl

/-- Nothing is found among symbols that a window does not start with. -/
theorem find?_eq_none
    {p : Production}
    {symbols : List Symbol}
    (h : ∀ s ∈ symbols, p.rhs.mayStart s = false) :
    p.find? .primary symbols = none := by
  have hskips := skips_of_not_mayStart h none []
  have hfind := findFrom?_append hskips 0
  rw [List.append_nil] at hfind
  exact hfind

end Production

/-- Gathered items do not mix with what is read behind them. -/
theorem Limb.separates_items
    {guard outer : List Symbol → Bool}
    {front : List Limb}
    (h : ∀ s ∈ symbols front, s = .nonterminal .expr)
    (houter : ∀ rest, guard rest = true → outer (symbols front ++ rest) = true) :
    Separates guard outer (symbols front) := by
  refine ⟨?_, ?_, houter⟩
  · cases hlast : (symbols front).getLast? with
    | none =>
        rfl
    | some s =>
        rw [h s (List.mem_of_getLast? hlast)]
        rfl
  · intro rest _ p
    refine p.skips_of_not_mayStart (fun s hs => ?_) none rest
    rw [h s hs]
    exact p.not_mayStart_expr

/--
A window in front is the next to be gathered if no production that is tried
before starts with any of the symbols.
-/
theorem nextReduction?_of_first
    {symbols : List Symbol}
    {p : Production}
    {earlier later : List Production}
    {width : Nat}
    (hcatalog : Production.all = earlier ++ p :: later)
    (hearlier : ∀ s ∈ symbols, ∀ q ∈ earlier, q.rhs.mayStart s = false)
    (hwidth : p.widthAt? .primary none symbols = some width) :
    nextReduction? .primary symbols = some (p, ⟨0, width, p.lhs⟩) := by
  have hfind : p.find? .primary symbols = some ⟨0, width, p.lhs⟩ := by
    cases symbols with
    | nil =>
        obtain ⟨window, behind, hsplit, -, hspans, -⟩ := Production.widthAt?_eq_some hwidth
        obtain ⟨rfl, -⟩ := List.append_eq_nil_iff.1 hsplit.symm
        exact absurd rfl (Production.spans_ne_nil hspans)
    | cons s rest =>
        rw [Production.find?, Production.findFrom?, hwidth]
  rw [nextReduction?, Production.catalog, List.findSome?_eq_some_iff]
  refine ⟨earlier, p, later, hcatalog, by rw [hfind]; rfl, ?_⟩
  intro q hq
  rw [Production.find?_eq_none fun s hs => hearlier s hs q hq]
  rfl

/-! ## Chains -/

namespace Rhs

/-- The links of a chain are counted up to its end. -/
theorem links_chain
    (s : Symbol)
    (count : Nat) :
    links
        ((List.replicate count
          [Symbol.nonterminal .logicalOp, Symbol.nonterminal .relationalExp]).flatten ++ [s])
      = count := by
  induction count with
  | zero =>
      rfl
  | succ count ih =>
      simp [List.replicate_succ, links, Symbol.isForm, Symbol.form?, ih]

theorem mem_chainOf
    {count : Nat}
    {s : Symbol}
    (h : s ∈ chainOf count) :
    s = .nonterminal .relationalExp ∨ s = .nonterminal .logicalOp := by
  simp only [chainOf, List.mem_cons, List.mem_flatten, List.mem_replicate] at h
  rcases h with rfl | ⟨pair, ⟨-, rfl⟩, hs⟩
  · exact .inl rfl
  · simpa [or_comm] using hs

theorem length_chainOf
    (count : Nat) :
    (chainOf count).length = 2 * count + 1 := by
  simp [chainOf, Nat.mul_comm]

end Rhs

/-- A chain is gathered when its parenthesis is closed. -/
theorem nextReduction?_chain
    (count : Nat) :
    nextReduction? .primary (Rhs.chainOf (count + 1) ++ [Kind.closeParen.sketch])
      = some (.logicalExpression, ⟨0, (Rhs.chainOf (count + 1)).length, .logicalExp⟩) := by
  have hcatalog :
      Production.all
        = Production.all.take 11 ++ .logicalExpression :: Production.all.drop 12 := rfl
  refine nextReduction?_of_first hcatalog ?_ ?_
  · intro s hs
    have hstart :
        ∀ s ∈ [Symbol.nonterminal .relationalExp, .nonterminal .logicalOp,
            Kind.closeParen.sketch],
          ∀ q ∈ Production.all.take 11, q.rhs.mayStart s = false := by
      decide
    apply hstart
    rcases List.mem_append.1 hs with hchain | hclose
    · rcases Rhs.mem_chainOf hchain with rfl | rfl <;> simp
    · simp [List.mem_singleton.1 hclose]
  · have hwidth :
        Rhs.width? .chain (Rhs.chainOf (count + 1) ++ [Kind.closeParen.sketch])
          = some (Rhs.chainOf (count + 1)).length := by
      rw [Rhs.length_chainOf, Rhs.chainOf, List.cons_append, Rhs.width?, Rhs.links_chain]
      simp [Symbol.isForm, Symbol.form?]
    rw [Production.widthAt?]
    change (Rhs.width? .chain _).filter _ = _
    rw [hwidth, Option.filter_some, Production.next_of_append]
    rfl

/-! ## Blocks -/

namespace Rhs

/-- The expressions of a block are counted up to its end. -/
theorem expressions_block
    {s : Symbol}
    (hs : s.isForm .expr = false)
    (count : Nat) :
    expressions (List.replicate count (Symbol.nonterminal .expr) ++ [s]) = count := by
  induction count with
  | zero =>
      simp [expressions, hs]
  | succ count ih =>
      simpa [List.replicate_succ, expressions, Symbol.isForm, Symbol.form?] using ih

end Rhs

/-- A block is gathered when its brace is closed. -/
theorem nextReduction?_block
    (count : Nat) :
    nextReduction? .primary
        (Kind.openBrace.sketch ::
          (List.replicate (count + 1) (Symbol.nonterminal .expr) ++ [Kind.closeBrace.sketch]))
      = some (.block, ⟨0, count + 3, .stmt⟩) := by
  have hcatalog :
      Production.all = Production.all.take 18 ++ .block :: Production.all.drop 19 := rfl
  refine nextReduction?_of_first hcatalog ?_ ?_
  · intro s hs
    have hstart :
        ∀ s ∈ [Kind.openBrace.sketch, .nonterminal .expr, Kind.closeBrace.sketch],
          ∀ q ∈ Production.all.take 18, q.rhs.mayStart s = false := by
      decide
    apply hstart
    simp only [List.mem_cons, List.mem_append, List.mem_replicate, List.not_mem_nil,
      or_false] at hs ⊢
    rcases hs with hopen | ⟨-, hexpr⟩ | hclose
    · exact .inl hopen
    · exact .inr (.inl hexpr)
    · exact .inr (.inr hclose)
  · have hwidth :
        Rhs.width? .block
            (Kind.openBrace.sketch ::
              (List.replicate (count + 1) (Symbol.nonterminal .expr)
                ++ [Kind.closeBrace.sketch]))
          = some (count + 3) := by
      rw [Rhs.width?, Rhs.expressions_block rfl, if_pos]
      simp [Kind.sketch, Symbol.isKind, Symbol.kind?]
    rw [Production.widthAt?]
    change (Rhs.width? .block _).filter _ = _
    rw [hwidth]
    rfl

namespace Limb

/-- The limbs of a chain are gathered under one phrase. -/
theorem fires_chain
    {guard : List Symbol → Bool}
    {limbs : List Limb}
    {closing : Token}
    {count : Nat}
    (hguard : Sketchable guard)
    (hsymbols : symbols limbs = Rhs.chainOf (count + 1))
    (hclosing : closing.kind = .closeParen)
    (hkeep : guard (Rhs.chainOf (count + 1) ++ [Kind.closeParen.sketch]) = true) :
    Fires guard (limbs ++ [leaf closing]) [phrase .logicalExp limbs, leaf closing] := by
  have hchain : (Rhs.chainOf (count + 1)).map Symbol.sketch = Rhs.chainOf (count + 1) := by
    have hid : ∀ s ∈ Rhs.chainOf (count + 1), s.sketch = id s := by
      intro s hs
      rcases Rhs.mem_chainOf hs with rfl | rfl <;> rfl
    rw [List.map_congr_left hid, List.map_id]
  have hsketch :
      sketch (limbs ++ [leaf closing]) = Rhs.chainOf (count + 1) ++ [Kind.closeParen.sketch] := by
    rw [sketch_append_leaf, hclosing, sketch, hsymbols, hchain]
  have hlength : (Rhs.chainOf (count + 1)).length = limbs.length := by
    rw [← hsymbols, length_symbols]
  have hnext := congrArg (Option.map Prod.snd) (nextReduction?_chain count)
  have hfires := fires_of_sketch hguard hsketch hkeep hnext
  rw [hlength, splice_front] at hfires
  exact hfires

/-- The limbs of a block are gathered under one phrase. -/
theorem fires_block
    {guard : List Symbol → Bool}
    {limbs : List Limb}
    {opening closing : Token}
    {count : Nat}
    (hguard : Sketchable guard)
    (hopening : opening.kind = .openBrace)
    (hsymbols : symbols limbs = List.replicate (count + 1) (.nonterminal .expr))
    (hclosing : closing.kind = .closeBrace)
    (hkeep : ∀ rest, guard (Kind.openBrace.sketch :: rest) = true) :
    Fires guard (leaf opening :: (limbs ++ [leaf closing]))
      [phrase .stmt (leaf opening :: (limbs ++ [leaf closing]))] := by
  have hsketch :
      sketch (leaf opening :: (limbs ++ [leaf closing]))
        = Kind.openBrace.sketch ::
          (List.replicate (count + 1) (Symbol.nonterminal .expr)
            ++ [Kind.closeBrace.sketch]) := by
    simp [sketch, hsymbols, Symbol.sketch, hopening, hclosing]
  have hlength : count + 3 = (leaf opening :: (limbs ++ [leaf closing])).length := by
    rw [← length_symbols]
    simp [hsymbols]
  have hnext := congrArg (Option.map Prod.snd) (nextReduction?_block count)
  have hfires := fires_of_sketch hguard hsketch (hkeep _) hnext
  have hsplice := splice_front (leaf opening :: (limbs ++ [leaf closing])) [] .stmt
  rw [List.append_nil, ← hlength] at hsplice
  rw [hsplice] at hfires
  exact hfires

end Limb
end CometLang
