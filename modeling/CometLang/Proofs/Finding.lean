import CometLang.Proofs.Context
import CometLang.Proofs.Window

/-!
# The search misses no window

What the search for a reduction finds can be applied. This module says the converse: a
window that a production applies to is found, unless the production finds another one
in front of it. The symbols behind the window do not disturb this. A chain is as long as
it can be, but it is only gathered in front of a parenthesis, and a block ends with its
brace.

So nothing can be applied to symbols at which the search fails.
-/

namespace CometLang

namespace Rhs

theorem fits_of_spans
    {places : List Expect}
    {window : List Symbol}
    (h : (sequence places).Spans window)
    (rest : List Symbol) :
    fits places (window ++ rest) = true := by
  induction h with
  | nil =>
      rfl
  | cons hadmits _ ih =>
      simp [fits, hadmits, ih]

/-- The links of a chain end where no connective follows. -/
theorem links_append
    {rest : List Symbol}
    (hrest : rest.head?.any (·.isForm .logicalOp) = false)
    (count : Nat) :
    links
        ((List.replicate count
          [Symbol.nonterminal .logicalOp, Symbol.nonterminal .relationalExp]).flatten ++ rest)
      = count := by
  induction count with
  | zero =>
      rw [List.replicate_zero, List.flatten_nil, List.nil_append]
      match rest with
      | [] =>
          rfl
      | [_] =>
          rfl
      | op :: _ :: _ =>
          rw [List.head?_cons, Option.any_some] at hrest
          simp [links, hrest]
  | succ count ih =>
      simp [List.replicate_succ, links, Symbol.isForm, Symbol.form?, ih]

/-- The expressions of a block end where another symbol follows. -/
theorem expressions_append
    {s : Symbol}
    (hs : s.isForm .expr = false)
    (count : Nat)
    (rest : List Symbol) :
    expressions (List.replicate count (Symbol.nonterminal .expr) ++ s :: rest) = count := by
  induction count with
  | zero =>
      simp [expressions, hs]
  | succ count ih =>
      simpa [List.replicate_succ, expressions, Symbol.isForm, Symbol.form?] using ih

/-- The width of the expressions in front that stand between tokens of two kinds. -/
def bracedWidth?
    (first last : Kind) :
    List Symbol → Option Nat
  | [] => none
  | s :: rest =>
      if s.isKind first && 0 < expressions rest
          && rest[expressions rest]?.any (·.isKind last) then
        some (expressions rest + 2)
      else
        none

theorem bracedWidth?_eq_some_iff
    {first last : Kind}
    {symbols : List Symbol}
    {width : Nat} :
    bracedWidth? first last symbols = some width ↔
      ∃ opening closing count rest,
        opening.kind = first ∧ closing.kind = last ∧
          symbols = blockOf opening closing (count + 1) ++ rest ∧
          (blockOf opening closing (count + 1)).length = width := by
  constructor
  · intro h
    cases symbols with
    | nil =>
        cases h
    | cons s rest =>
        rw [bracedWidth?, ite_eq_iff] at h
        obtain ⟨hbraced, hwidth⟩ := h.resolve_right (by simp)
        simp only [Bool.and_eq_true, decide_eq_true_eq] at hbraced
        obtain ⟨⟨hfirst, hpos⟩, hlast⟩ := hbraced
        obtain ⟨opening, rfl, hopening⟩ := Symbol.isKind_iff.1 hfirst
        obtain ⟨behind, hrest⟩ := expressions_split rest
        obtain ⟨count, hcount⟩ : ∃ count, expressions rest = count + 1 :=
          ⟨expressions rest - 1, by omega⟩
        rw [hcount] at hrest hlast hwidth
        subst hrest
        rw [List.getElem?_append_right (by simp), List.length_replicate, Nat.sub_self] at hlast
        cases behind with
        | nil =>
            cases hlast
        | cons c behind =>
            obtain ⟨closing, rfl, hclosing⟩ := Symbol.isKind_iff.1 hlast
            refine ⟨opening, closing, count, behind, hopening, hclosing, by simp [blockOf], ?_⟩
            rw [← Option.some.inj hwidth]
            simp [blockOf]
  · rintro ⟨opening, closing, count, rest, rfl, rfl, rfl, rfl⟩
    have hexpressions :
        expressions
            (List.replicate (count + 1) (Symbol.nonterminal .expr) ++ .terminal closing :: rest)
          = count + 1 :=
      expressions_append rfl (count + 1) rest
    rw [blockOf, List.cons_append, List.append_assoc, List.singleton_append, bracedWidth?,
      hexpressions, if_pos]
    · simp
    · simp [Symbol.isKind, Symbol.kind?]

/-- A window is found in front of what stands behind it. -/
theorem width?_of_spans
    {rhs : Rhs}
    {window rest : List Symbol}
    (h : rhs.Spans window)
    (hrest : rhs = .chain → rest.head?.any (·.isForm .logicalOp) = false) :
    rhs.width? (window ++ rest) = some window.length := by
  cases rhs with
  | sequence places =>
      rw [width?, if_pos (fits_of_spans h rest), List.Forall₂.length_eq h]
  | chain =>
      obtain ⟨count, rfl⟩ := h
      rw [chainOf, List.cons_append, width?, links_append (hrest rfl)]
      simp [Symbol.isForm, Symbol.form?, Nat.mul_comm]
  | block =>
      obtain ⟨opening, closing, count, hopening, hclosing, rfl⟩ := h
      exact bracedWidth?_eq_some_iff.2
        ⟨opening, closing, count, rest, hopening, hclosing, rfl, rfl⟩

end Rhs

namespace Production

/-- There is one production for chains. -/
theorem eq_logicalExpression
    {p : Production}
    (h : p.rhs = .chain) :
    p = .logicalExpression := by
  revert h
  cases p <;> rintro ⟨⟩
  rfl

/-- What is found is a window of this width, if the production applies to it. -/
theorem Applies.widthAt?_eq_some
    {p : Production}
    {mode : Mode}
    {before window behind : List Symbol}
    (h : p.Applies mode before window behind) :
    p.widthAt? mode before.getLast? (window ++ behind) = some window.length := by
  have hrest : p.rhs = .chain → behind.head?.any (·.isForm .logicalOp) = false := by
    intro hchain
    obtain rfl := eq_logicalExpression hchain
    have hclosed := (Bool.and_eq_true_iff.1 h.allowed).2
    cases behind with
    | nil =>
        rfl
    | cons s behind =>
        obtain ⟨closing, rfl, -⟩ := Symbol.isKind_iff.1 hclosed
        rfl
  rw [widthAt?, Rhs.width?_of_spans h.spans hrest, Option.filter_some, next_of_append]
  have hhead : (window ++ behind).head? = window.head? := by
    cases window with
    | nil =>
        exact absurd rfl (spans_ne_nil h.spans)
    | cons s window =>
        rfl
  rw [hhead, h.allowed, if_pos rfl]

/-- Nothing that the production applies to stands in front of what the search finds. -/
theorem findFrom?_le
    {p : Production}
    {mode : Mode}
    {previous : Option Symbol}
    {front : List Symbol}
    {s : Symbol}
    {rest : List Symbol}
    {width : Nat}
    (h : p.widthAt? mode (front.getLast?.or previous) (s :: rest) = some width)
    (start : Nat) :
    ∃ r, p.findFrom? mode previous start (front ++ s :: rest) = some r ∧
      r.start ≤ start + front.length := by
  induction front generalizing previous start with
  | nil =>
      refine ⟨⟨start, width, p.lhs⟩, ?_, Nat.le_refl _⟩
      rw [List.nil_append, findFrom?, show p.widthAt? mode previous (s :: rest) = some width from h]
  | cons t front ih =>
      rw [List.cons_append, findFrom?]
      split
      · exact ⟨_, rfl, Nat.le_add_right _ _⟩
      · have hlast : (t :: front).getLast?.or previous = front.getLast?.or (some t) := by
          simp [List.getLast?_cons]
        obtain ⟨r, hfound, hle⟩ := ih (hlast ▸ h) (start + 1)
        refine ⟨r, hfound, ?_⟩
        rw [List.length_cons]
        omega

/-- What the search finds can be applied. -/
theorem find?_eq_some
    {p : Production}
    {mode : Mode}
    {symbols : List Symbol}
    {r : Reduction}
    (h : p.find? mode symbols = some r) :
    ∃ before window behind,
      symbols = before ++ window ++ behind ∧
        r = ⟨before.length, window.length, p.lhs⟩ ∧ p.Applies mode before window behind := by
  obtain ⟨before, window, behind, hsplit, hr, hspans, hallowed⟩ := findFrom?_eq_some h
  refine ⟨before, window, behind, hsplit, by simpa using hr, hspans, ?_⟩
  rwa [Option.or_none] at hallowed

/-- What can be applied is found, unless something is found in front of it. -/
theorem Applies.find?_le
    {p : Production}
    {mode : Mode}
    {before window behind : List Symbol}
    (h : p.Applies mode before window behind) :
    ∃ r, p.find? mode (before ++ window ++ behind) = some r ∧ r.start ≤ before.length := by
  have hwidth := h.widthAt?_eq_some
  obtain ⟨s, window, rfl⟩ := List.exists_cons_of_ne_nil (spans_ne_nil h.spans)
  rw [List.append_assoc, List.cons_append]
  rw [List.cons_append, ← Option.or_none (o := before.getLast?)] at hwidth
  obtain ⟨r, hfound, hle⟩ := findFrom?_le hwidth 0
  exact ⟨r, hfound, by omega⟩

/-- Where the search finds nothing, the production applies nowhere. -/
theorem not_applies_of_find?
    {p : Production}
    {mode : Mode}
    {symbols before window behind : List Symbol}
    (h : p.find? mode symbols = none)
    (hsplit : symbols = before ++ window ++ behind) :
    ¬ p.Applies mode before window behind := by
  intro happlies
  obtain ⟨r, hfound, -⟩ := happlies.find?_le
  rw [← hsplit, h] at hfound
  cases hfound

/-- To settled symbols no production applies. -/
theorem not_applies_of_settled
    {p : Production}
    {symbols before window behind : List Symbol}
    (h : nextReduction? .primary symbols = none)
    (hsplit : symbols = before ++ window ++ behind) :
    ¬ p.Applies .primary before window behind := by
  have hfind : p.find? .primary symbols = none :=
    Option.map_eq_none_iff.1 (List.findSome?_eq_none_iff.1 h p p.mem_all)
  exact not_applies_of_find? hfind hsplit

end Production
end CometLang
