import CometLang.Grammar.Reduction
import Mathlib.Data.List.Forall2

/-!
# Windows of productions

The search for the next reduction returns a position and a width. This module
says what they mean: the symbols at hand split into a part before the window,
the window itself and a part behind it, the window is spanned by the right-hand
side of the production, and the surroundings allow the production.

Every later fact about reductions starts from `nextReduction?_eq_some` and does
not look into the search again.
-/

namespace CometLang

/-! ## The first symbol and the neighbours -/

namespace Symbol

theorem isForm_iff
    {s : Symbol}
    {form : Nonterminal} :
    s.isForm form = true ↔ s = .nonterminal form := by
  cases s with
  | terminal token =>
      simp [isForm, form?]
  | nonterminal other =>
      simp [isForm, form?]

theorem isKind_iff
    {s : Symbol}
    {kind : Kind} :
    s.isKind kind = true ↔ ∃ token : Token, s = .terminal token ∧ token.kind = kind := by
  cases s with
  | terminal token =>
      simp [isKind, kind?]
  | nonterminal other =>
      simp [isKind, kind?]

end Symbol

namespace Rhs

/-- A comparison followed by so many pairs of a connective and a comparison. -/
def chainOf (count : Nat) : List Symbol :=
  .nonterminal .relationalExp ::
    (List.replicate count
      [Symbol.nonterminal .logicalOp, Symbol.nonterminal .relationalExp]).flatten

/-- So many expressions between two braces. -/
def blockOf
    (opening closing : Token)
    (count : Nat) : List Symbol :=
  .terminal opening ::
    (List.replicate count (Symbol.nonterminal .expr) ++ [.terminal closing])

/-- The symbols are one whole window with this right-hand side. -/
def Spans : Rhs → List Symbol → Prop
  | sequence places, window =>
      List.Forall₂ (fun place s => place.admits s = true) places window
  | chain, window =>
      ∃ count, window = chainOf (count + 1)
  | block, window =>
      ∃ opening closing count,
        opening.kind = .openBrace ∧ closing.kind = .closeBrace ∧
          window = blockOf opening closing (count + 1)

/-- Symbols that fit the places start with a window of the same length. -/
theorem fits_split
    {places : List Expect}
    {symbols : List Symbol}
    (h : fits places symbols = true) :
    ∃ window behind,
      symbols = window ++ behind ∧ (sequence places).Spans window := by
  induction places generalizing symbols with
  | nil =>
      exact ⟨[], symbols, rfl, List.Forall₂.nil⟩
  | cons place places ih =>
      cases symbols with
      | nil =>
          simp [fits] at h
      | cons s rest =>
          simp only [fits, Bool.and_eq_true] at h
          obtain ⟨window, behind, hrest, hspans⟩ := ih h.2
          refine ⟨s :: window, behind, ?_, List.Forall₂.cons h.1 hspans⟩
          simp [hrest]

/-- The counted pairs of connective and comparison stand in front. -/
theorem links_split
    (symbols : List Symbol) :
    ∃ behind,
      symbols =
        (List.replicate (links symbols)
          [Symbol.nonterminal .logicalOp, Symbol.nonterminal .relationalExp]).flatten
        ++ behind := by
  induction symbols using links.induct with
  | case1 op comparison rest h ih =>
      obtain ⟨behind, hrest⟩ := ih
      simp only [Bool.and_eq_true, Symbol.isForm_iff] at h
      obtain ⟨rfl, rfl⟩ := h
      refine ⟨behind, ?_⟩
      have hlinks :
          links (.nonterminal .logicalOp :: .nonterminal .relationalExp :: rest)
            = links rest + 1 := by
        rw [links]
        rfl
      rw [hlinks, List.replicate_succ, List.flatten_cons]
      simpa using hrest
  | case2 op comparison rest h =>
      refine ⟨op :: comparison :: rest, ?_⟩
      simp [links, h]
  | case3 symbols h =>
      refine ⟨symbols, ?_⟩
      have hlinks : links symbols = 0 := by
        rw [links]
        exact h
      simp [hlinks]

/-- The counted expressions stand in front. -/
theorem expressions_split
    (symbols : List Symbol) :
    ∃ behind,
      symbols =
        List.replicate (expressions symbols) (Symbol.nonterminal .expr) ++ behind := by
  refine ⟨symbols.dropWhile (·.isForm .expr), ?_⟩
  have hall :
      symbols.takeWhile (·.isForm .expr)
        = List.replicate (expressions symbols) (Symbol.nonterminal .expr) := by
    rw [List.eq_replicate_iff]
    refine ⟨rfl, ?_⟩
    intro s hs
    exact Symbol.isForm_iff.1 (List.all_eq_true.1 List.all_takeWhile s hs)
  rw [← hall]
  exact (List.takeWhile_append_dropWhile ..).symm

/-- The width found is that of a window in front which is spanned. -/
theorem width?_eq_some
    {rhs : Rhs}
    {symbols : List Symbol}
    {width : Nat}
    (h : rhs.width? symbols = some width) :
    ∃ window behind,
      symbols = window ++ behind ∧ window.length = width ∧ rhs.Spans window := by
  cases rhs with
  | sequence places =>
      simp only [width?] at h
      split at h
      · next hfits =>
          obtain ⟨window, behind, hsplit, hspans⟩ := fits_split hfits
          obtain rfl := Option.some.inj h
          exact ⟨window, behind, hsplit, (List.Forall₂.length_eq hspans).symm, hspans⟩
      · simp at h
  | chain =>
      cases symbols with
      | nil =>
          simp [width?] at h
      | cons s rest =>
          simp only [width?] at h
          split at h
          · next hchain =>
              simp only [Bool.and_eq_true, decide_eq_true_eq, Symbol.isForm_iff] at hchain
              obtain ⟨rfl, hpos⟩ := hchain
              obtain ⟨behind, hrest⟩ := links_split rest
              obtain rfl := Option.some.inj h
              obtain ⟨count, hcount⟩ : ∃ count, links rest = count + 1 :=
                ⟨links rest - 1, by omega⟩
              rw [hcount] at hrest ⊢
              refine ⟨chainOf (count + 1), behind, ?_, ?_, count, rfl⟩
              · simpa [chainOf] using hrest
              · simp [chainOf, Nat.mul_comm]
          · simp at h
  | block =>
      cases symbols with
      | nil =>
          simp [width?] at h
      | cons s rest =>
          simp only [width?] at h
          split at h
          · next hblock =>
              simp only [Bool.and_eq_true, decide_eq_true_eq] at hblock
              obtain ⟨⟨hopen, hpos⟩, hclose⟩ := hblock
              obtain ⟨opening, rfl, hopening⟩ := Symbol.isKind_iff.1 hopen
              obtain ⟨behind, hrest⟩ := expressions_split rest
              obtain rfl := Option.some.inj h
              obtain ⟨count, hcount⟩ : ∃ count, expressions rest = count + 1 :=
                ⟨expressions rest - 1, by omega⟩
              rw [hcount] at hrest hclose ⊢
              subst hrest
              rw [List.getElem?_append_right (by simp), List.length_replicate,
                Nat.sub_self] at hclose
              cases behind with
              | nil =>
                  simp at hclose
              | cons c behind =>
                  simp only [List.getElem?_cons_zero, Option.any_some] at hclose
                  obtain ⟨closing, rfl, hclosing⟩ := Symbol.isKind_iff.1 hclose
                  refine ⟨blockOf opening closing (count + 1), behind, ?_, ?_,
                    opening, closing, count, hopening, hclosing, rfl⟩
                  · simp [blockOf]
                  · simp [blockOf]
          · simp at h

end Rhs

namespace Production

/-- A window is never empty. -/
theorem spans_ne_nil
    {p : Production}
    {window : List Symbol}
    (h : p.rhs.Spans window) :
    window ≠ [] := by
  rintro rfl
  cases p <;> simp [rhs, Rhs.Spans, Rhs.chainOf, Rhs.blockOf] at h

/-- The production applies to the window between the symbols around it. -/
structure Applies
    (mode : Mode)
    (p : Production)
    (before window behind : List Symbol) : Prop where
  spans : p.rhs.Spans window
  allowed : p.allows before.getLast? window.head? (Next.of behind 0 mode) = true

/-- What stands behind a window is the first symbol of the rest. -/
theorem next_of_append
    (window behind : List Symbol)
    (mode : Mode) :
    Next.of (window ++ behind) window.length mode = Next.of behind 0 mode := by
  have hget : (window ++ behind)[window.length]? = behind[0]? := by
    rw [List.getElem?_append_right (Nat.le_refl _), Nat.sub_self]
  simp only [Next.of, hget]

/-- A width found in front, behind a symbol, is that of an allowed window. -/
theorem widthAt?_eq_some
    {p : Production}
    {mode : Mode}
    {before : Option Symbol}
    {symbols : List Symbol}
    {width : Nat}
    (h : p.widthAt? mode before symbols = some width) :
    ∃ window behind,
      symbols = window ++ behind ∧ window.length = width ∧ p.rhs.Spans window ∧
        p.allows before window.head? (Next.of behind 0 mode) = true := by
  rw [widthAt?, Option.filter_eq_some_iff] at h
  obtain ⟨hwidth, hallowed⟩ := h
  obtain ⟨window, behind, rfl, rfl, hspans⟩ := Rhs.width?_eq_some hwidth
  rw [next_of_append] at hallowed
  refine ⟨window, behind, rfl, rfl, hspans, ?_⟩
  rw [← hallowed]
  cases window with
  | nil =>
      exact absurd rfl (spans_ne_nil hspans)
  | cons s window =>
      rfl

/-- The leftmost window is one that the production applies to. -/
theorem findFrom?_eq_some
    {p : Production}
    {mode : Mode}
    {previous : Option Symbol}
    {start : Nat}
    {symbols : List Symbol}
    {r : Reduction}
    (h : p.findFrom? mode previous start symbols = some r) :
    ∃ before window behind,
      symbols = before ++ window ++ behind ∧
        r = ⟨start + before.length, window.length, p.lhs⟩ ∧ p.rhs.Spans window ∧
        p.allows (before.getLast?.or previous) window.head? (Next.of behind 0 mode)
          = true := by
  induction symbols generalizing previous start with
  | nil =>
      simp [findFrom?] at h
  | cons s rest ih =>
      rw [findFrom?] at h
      split at h
      · next width hwidth =>
          obtain ⟨window, behind, hsplit, hlength, hspans, hallowed⟩ :=
            widthAt?_eq_some hwidth
          obtain rfl := Option.some.inj h
          exact ⟨[], window, behind, hsplit, by simp [hlength], hspans, hallowed⟩
      · obtain ⟨before, window, behind, hsplit, hr, hspans, hallowed⟩ := ih h
        refine ⟨s :: before, window, behind, by simp [hsplit], ?_, hspans, ?_⟩
        · rw [hr, List.length_cons]
          congr 1
          omega
        · cases before with
          | nil =>
              exact hallowed
          | cons other before =>
              have hlast :
                  ((s :: other :: before).getLast?.or previous)
                    = ((other :: before).getLast?.or (some s)) := by
                simp [List.getLast?_cons]
              rw [hlast]
              exact hallowed

end Production

/--
The next reduction is a window among the symbols at hand that a production of
the mode applies to.
-/
theorem nextReduction?_eq_some
    {mode : Mode}
    {symbols : List Symbol}
    {p : Production}
    {r : Reduction}
    (h : nextReduction? mode symbols = some (p, r)) :
    ∃ before window behind,
      symbols = before ++ window ++ behind ∧
        r = ⟨before.length, window.length, p.lhs⟩ ∧
        p.Applies mode before window behind := by
  obtain ⟨_, q, _, _, hfound, _⟩ := List.findSome?_eq_some_iff.1 h
  obtain ⟨r', hfind, hpair⟩ := Option.map_eq_some_iff.1 hfound
  obtain ⟨rfl, rfl⟩ := Prod.mk.inj hpair
  obtain ⟨before, window, behind, hsplit, hr, hspans, hallowed⟩ :=
    Production.findFrom?_eq_some hfind
  refine ⟨before, window, behind, hsplit, by simpa using hr, hspans, ?_⟩
  simpa using hallowed

end CometLang
