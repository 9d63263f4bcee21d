import CometLang.Proofs.Sketch

/-!
# Left context

What is read behind other symbols is read as if they were not there, provided
that no window starts among them. Whether a window may start there depends on
what stands behind: the symbols in front are separated from the rest by a guard
that the rest has to keep.

Contexts are finite lists of symbols, so that they can be checked by
computation: each place of a context either clashes with a right-hand side or
leaves an ending of it which the guard avoids.
-/

namespace CometLang

/-- The reduction with its window moved to the right. -/
def Reduction.moved
    (count : Nat)
    (r : Reduction) : Reduction :=
  { r with start := count + r.start }

/-- In front of a window the symbol counts as much as none. -/
def Symbol.isNeutral (s : Symbol) : Bool :=
  !s.isArithmetic && !s.isForm .logicalOp

theorem Symbol.isMultiplicative_of_isNeutral
    {s : Symbol}
    (h : s.isNeutral = true) :
    s.isMultiplicative = false := by
  cases s with
  | terminal token =>
      cases hkind : token.kind <;>
        simp_all [isNeutral, isArithmetic, isMultiplicative, kind?, Kind.isArithmetic,
          Kind.isMultiplicative]
  | nonterminal form =>
      rfl

namespace Production

variable {p : Production} {before : Option Symbol} {front rest : List Symbol}

/-- No window of the production starts in `front` if `rest` stands behind it. -/
def Skips
    (p : Production) :
    Option Symbol → List Symbol → List Symbol → Prop
  | _, [], _ => True
  | before, s :: front, rest =>
      p.widthAt? .primary before (s :: (front ++ rest)) = none
        ∧ p.Skips (some s) front rest

/-- The search passes over symbols in which no window starts. -/
theorem findFrom?_append
    (h : p.Skips before front rest)
    (start : Nat) :
    p.findFrom? .primary before start (front ++ rest)
      = p.findFrom? .primary (front.getLast?.or before) (start + front.length) rest := by
  induction front generalizing before start with
  | nil =>
      rfl
  | cons s front ih =>
      obtain ⟨hnone, hskips⟩ := h
      rw [List.cons_append, findFrom?, hnone, ih hskips]
      have hlast : front.getLast?.or (some s) = (s :: front).getLast?.or before := by
        simp [List.getLast?_cons]
      rw [hlast, List.length_cons, Nat.add_assoc, Nat.add_comm 1]

/-- A neutral symbol allows what no symbol allows. -/
theorem allows_neutral
    {s : Symbol}
    (hs : s.isNeutral = true)
    (p : Production)
    (inside : Option Symbol)
    (next : Next) :
    p.allows (some s) inside next = p.allows none inside next := by
  have hmul := Symbol.isMultiplicative_of_isNeutral hs
  simp only [Symbol.isNeutral, Bool.and_eq_true, Bool.not_eq_true'] at hs
  cases p <;> simp [allows, hs.1, hs.2, hmul]

theorem findFrom?_neutral
    {s : Symbol}
    (hs : s.isNeutral = true)
    (p : Production)
    (start : Nat)
    (symbols : List Symbol) :
    p.findFrom? .primary (some s) start symbols
      = p.findFrom? .primary none start symbols := by
  cases symbols with
  | nil =>
      rfl
  | cons t rest =>
      simp only [findFrom?, widthAt?, allows_neutral hs]

/-- Where the count of positions starts only moves the window. -/
theorem findFrom?_moved
    (p : Production)
    (mode : Mode)
    (before : Option Symbol)
    (count start : Nat)
    (symbols : List Symbol) :
    p.findFrom? mode before (count + start) symbols
      = (p.findFrom? mode before start symbols).map (Reduction.moved count) := by
  induction symbols generalizing before start with
  | nil =>
      rfl
  | cons s rest ih =>
      rw [findFrom?, findFrom?]
      cases p.widthAt? mode before (s :: rest) with
      | some width =>
          rfl
      | none =>
          exact ih (some s) (start + 1)

end Production

/--
Behind symbols in which no window starts, and the last of which is neutral, the
next reduction is the same as without them.
-/
theorem nextReduction?_append
    {front rest : List Symbol}
    (hneutral : front.getLast?.all Symbol.isNeutral = true)
    (hskips : ∀ p : Production, p.Skips none front rest) :
    nextReduction? .primary (front ++ rest)
      = (nextReduction? .primary rest).map fun found =>
          (found.1, found.2.moved front.length) := by
  have hfind (p : Production) :
      p.find? .primary (front ++ rest)
        = (p.find? .primary rest).map (Reduction.moved front.length) := by
    rw [Production.find?, Production.findFrom?_append (hskips p), Nat.zero_add,
      Production.find?, ← Production.findFrom?_moved, Nat.add_zero]
    cases hlast : front.getLast? with
    | none =>
        rfl
    | some s =>
        rw [hlast, Option.all_some] at hneutral
        exact Production.findFrom?_neutral hneutral p front.length rest
  simp only [nextReduction?, hfind, List.map_findSome?]
  congr 1
  funext p
  simp [Option.map_map, Function.comp_def]

namespace Limb

/-- The symbols in front do not mix with a rest that keeps the guard. -/
structure Separates
    (guard outer : List Symbol → Bool)
    (front : List Symbol) : Prop where
  neutral : front.getLast?.all Symbol.isNeutral = true
  skips : ∀ rest, guard rest = true → ∀ p : Production, p.Skips none front rest
  outer : ∀ rest, guard rest = true → outer (front ++ rest) = true

theorem splice_moved
    (front limbs : List Limb)
    (r : Reduction) :
    splice (front ++ limbs) (r.moved front.length) = front ++ splice limbs r := by
  have htake :
      List.take (front.length + r.start) (front ++ limbs) = front ++ limbs.take r.start := by
    rw [List.take_append, List.take_of_length_le (by omega), Nat.add_sub_cancel_left]
  simp [splice, Reduction.moved, Nat.add_assoc, htake]

/-- Productions are fired under a guard, which need not hold at the end. -/
inductive Fires
    (guard : List Symbol → Bool) :
    List Limb → List Limb → Prop
  | refl
      {limbs : List Limb} :
      Fires guard limbs limbs
  | step
      {limbs last : List Limb}
      {p : Production}
      {r : Reduction}
      (hguard : guard (symbols limbs) = true)
      (hsome : nextReduction? .primary (symbols limbs) = some (p, r))
      (hrest : Fires guard (splice limbs r) last) :
      Fires guard limbs last

variable {guard outer : List Symbol → Bool} {front limbs next last : List Limb}

/-- One firing after the other. -/
theorem Fires.trans
    (h : Fires guard limbs next)
    (hnext : Fires guard next last) :
    Fires guard limbs last := by
  induction h with
  | refl =>
      exact hnext
  | step hguard hsome _ ih =>
      exact .step hguard hsome (ih hnext)

/-- What fires on a sketch fires. -/
theorem fires_of_sketch
    {w : List Symbol}
    {r : Reduction}
    (hguard : Sketchable guard)
    (hw : sketch limbs = w)
    (hkeep : guard w = true)
    (hnext : (nextReduction? .primary w).map Prod.snd = some r) :
    Fires guard limbs (splice limbs r) := by
  subst hw
  rw [sketch, hguard] at hkeep
  rw [sketch, nextReduction?_sketch, Option.map_eq_some_iff] at hnext
  obtain ⟨⟨p, r⟩, hsome, rfl⟩ := hnext
  exact .step hkeep hsome .refl

/-- Limbs settle to what they settle to after some firings. -/
theorem Fires.settles
    (h : Fires guard limbs next)
    (hnext : Settles .primary guard next last) :
    Settles .primary guard limbs last := by
  induction h with
  | refl =>
      exact hnext
  | step hguard hsome _ ih =>
      exact .fire hguard hsome (ih hnext)

/-- In front of everything, a guard may be replaced by a weaker one. -/
theorem separates_nil
    (hweaker : ∀ symbols, guard symbols = true → outer symbols = true) :
    Separates guard outer (symbols []) :=
  ⟨rfl, fun _ _ _ => trivial, hweaker⟩

/-- The next reduction behind symbols that are separated from the rest. -/
theorem Separates.nextReduction?_eq
    (h : Separates guard outer (symbols front))
    (hguard : guard (symbols limbs) = true) :
    nextReduction? .primary (symbols (front ++ limbs))
      = (nextReduction? .primary (symbols limbs)).map fun found =>
          (found.1, found.2.moved front.length) := by
  rw [symbols_append, nextReduction?_append h.neutral (h.skips _ hguard), length_symbols]

theorem Separates.outer_eq
    (h : Separates guard outer (symbols front))
    (hguard : guard (symbols limbs) = true) :
    outer (symbols (front ++ limbs)) = true := by
  rw [symbols_append]
  exact h.outer _ hguard

/-- What fires alone fires in the same way behind separated symbols. -/
theorem Fires.behind
    (hfront : Separates guard outer (symbols front))
    (h : Fires guard limbs last) :
    Fires outer (front ++ limbs) (front ++ last) := by
  induction h with
  | refl =>
      exact .refl
  | step hguard hsome _ ih =>
      have hnext := hfront.nextReduction?_eq hguard
      rw [hsome, Option.map_some] at hnext
      refine .step (hfront.outer_eq hguard) hnext ?_
      rw [splice_moved]
      exact ih

/-- What settles alone settles in the same way behind separated symbols. -/
theorem Settles.behind
    (hfront : Separates guard outer (symbols front))
    (h : Settles .primary guard limbs last) :
    Settles .primary outer (front ++ limbs) (front ++ last) := by
  induction h with
  | done hguard hnone =>
      have hnext := hfront.nextReduction?_eq hguard
      rw [hnone, Option.map_none] at hnext
      exact .done (hfront.outer_eq hguard) hnext
  | fire hguard hsome _ ih =>
      have hnext := hfront.nextReduction?_eq hguard
      rw [hsome, Option.map_some] at hnext
      refine .fire (hfront.outer_eq hguard) hnext ?_
      rw [splice_moved]
      exact ih

/-- What is read alone is read in the same way behind separated symbols. -/
theorem Reads.behind
    {tokens : List Token}
    (hfront : Separates guard outer (symbols front))
    (h : Reads guard limbs tokens last) :
    Reads outer (front ++ limbs) tokens (front ++ last) := by
  induction h with
  | nil =>
      exact .nil
  | cons hsettles _ ih =>
      have hfirst := hsettles.behind hfront
      rw [← List.append_assoc] at hfirst
      exact .cons hfirst ih

end Limb

/-! ## Contexts that can be checked -/

theorem Production.skips_sketch
    (p : Production)
    (before : Option Symbol)
    (front rest : List Symbol) :
    p.Skips (before.map Symbol.sketch) (front.map Symbol.sketch) (rest.map Symbol.sketch)
      ↔ p.Skips before front rest := by
  induction front generalizing before with
  | nil =>
      rfl
  | cons s front ih =>
      have hwidth := p.widthAt?_sketch .primary before (s :: (front ++ rest))
      have hrest := ih (some s)
      rw [List.map_cons, List.map_append] at hwidth
      rw [Option.map_some] at hrest
      rw [List.map_cons, Skips, Skips, hwidth, hrest]

/-- Symbols are separated from the rest if their sketch is. -/
theorem Limb.Separates.of_sketch
    {guard outer : List Symbol → Bool}
    {front : List Limb}
    (hguard : Sketchable guard)
    (houter : Sketchable outer)
    (h : Separates guard outer (sketch front)) :
    Separates guard outer (symbols front) := by
  have hkeep (rest : List Symbol) (hrest : guard rest = true) :
      guard (rest.map Symbol.sketch) = true := by
    rw [hguard, hrest]
  refine ⟨?_, ?_, ?_⟩
  · have hneutral := h.neutral
    rw [sketch, List.getLast?_map] at hneutral
    cases hlast : (symbols front).getLast? with
    | none =>
        rfl
    | some s =>
        rw [hlast] at hneutral
        simpa [Symbol.isNeutral] using hneutral
  · intro rest hrest p
    exact (p.skips_sketch none _ rest).1 (h.skips _ (hkeep rest hrest) p)
  · intro rest hrest
    rw [← houter, List.map_append]
    exact h.outer _ (hkeep rest hrest)

namespace Rhs

/-- The places that are left when the symbols stand at the first ones. -/
def remainder? :
    List Expect → List Symbol → Option (List Expect)
  | places, [] => some places
  | [], _ :: _ => some []
  | place :: places, s :: symbols =>
      if place.admits s then remainder? places symbols else none

/-- What fits in front of other symbols leaves places that they fit. -/
theorem fits_append
    {places : List Expect}
    {front rest : List Symbol}
    (h : fits places (front ++ rest) = true) :
    ∃ left, remainder? places front = some left ∧ fits left rest = true := by
  induction front generalizing places with
  | nil =>
      exact ⟨places, by simp [remainder?], h⟩
  | cons s front ih =>
      cases places with
      | nil =>
          exact ⟨[], rfl, rfl⟩
      | cons place places =>
          rw [List.cons_append, fits, Bool.and_eq_true] at h
          rw [remainder?, if_pos h.1]
          exact ih h.2

/-- Whether places fit does not depend on what stands behind them. -/
theorem fits_of_length_le
    {places : List Expect}
    {front : List Symbol}
    (h : places.length ≤ front.length)
    (rest : List Symbol) :
    fits places (front ++ rest) = fits places front := by
  induction places generalizing front with
  | nil =>
      simp [fits]
  | cons place places ih =>
      cases front with
      | nil =>
          simp at h
      | cons s front =>
          simp only [List.length_cons, Nat.add_le_add_iff_right] at h
          rw [List.cons_append, fits, fits, ih h]

/-- Symbols that fit the places fit the first ones of them. -/
theorem fits_of_isPrefixOf
    {ending places : List Expect}
    {symbols : List Symbol}
    (hinitial : ending.isPrefixOf places = true)
    (h : fits places symbols = true) :
    fits ending symbols = true := by
  obtain ⟨more, rfl⟩ := List.isPrefixOf_iff_prefix.1 hinitial
  induction ending generalizing symbols with
  | nil =>
      rfl
  | cons place ending ih =>
      cases symbols with
      | nil =>
          simp [fits] at h
      | cons s symbols =>
          rw [List.cons_append, fits, Bool.and_eq_true] at h
          rw [fits, h.1, Bool.true_and]
          exact ih (by simp) h.2

/-- Behind the expressions in front stands the first symbol that is none. -/
theorem getElem?_expressions
    (symbols : List Symbol) :
    symbols[expressions symbols]? = (symbols.dropWhile (·.isForm .expr)).head? := by
  induction symbols with
  | nil =>
      rfl
  | cons s symbols ih =>
      by_cases hs : s.isForm .expr
      · simpa [expressions, hs] using ih
      · simp [expressions, hs]

end Rhs

/--
The symbols do not close a block that was opened before them, and they start
with none of the endings.
-/
def Guard.avoids
    (endings : List (List Expect))
    (symbols : List Symbol) : Bool :=
  !(symbols.dropWhile (·.isForm .expr)).head?.any (·.isKind .closeBrace)
    && endings.all fun ending => !Rhs.fits ending symbols

theorem Guard.avoids_sketchable
    (endings : List (List Expect)) :
    Sketchable (Guard.avoids endings) := by
  intro symbols
  simp [avoids, List.dropWhile_map, Function.comp_def, Option.any_map, Rhs.fits_sketch]

/-- A guard that avoids more endings is stronger. -/
theorem Guard.avoids_nil
    {endings : List (List Expect)}
    (symbols : List Symbol)
    (h : Guard.avoids endings symbols = true) :
    Guard.avoids [] symbols = true := by
  rw [avoids, Bool.and_eq_true] at h
  simp [avoids, h.1]

namespace Production

/--
No window starts with the symbols behind `before`: either all of it would stand
among them, and it is not there, or one of the endings must follow them.
-/
def clears
    (endings : List (List Expect))
    (before : Option Symbol)
    (front : List Symbol)
    (p : Production) : Bool :=
  match p.rhs with
  | .sequence places =>
      if places.length < front.length then
        (p.widthAt? .primary before front).isNone
      else
        (Rhs.remainder? places front).all fun left => endings.any (·.isPrefixOf left)
  | .chain => !front.head?.any (·.isForm .relationalExp)
  | .block => !front.head?.any (·.isKind .openBrace) || front.length == 1

/-- A window that is shorter than the symbols does not depend on what follows. -/
theorem widthAt?_append
    {p : Production}
    {places : List Expect}
    {front : List Symbol}
    (hrhs : p.rhs = .sequence places)
    (h : places.length < front.length)
    (before : Option Symbol)
    (rest : List Symbol) :
    p.widthAt? .primary before (front ++ rest) = p.widthAt? .primary before front := by
  have hnext : Next.of (front ++ rest) places.length .primary
      = Next.of front places.length .primary := by
    simp only [Next.of, List.getElem?_append_left h]
  have hhead : (front ++ rest).head? = front.head? := by
    cases front with
    | nil =>
        simp at h
    | cons s front =>
        rfl
  rw [widthAt?, widthAt?, hrhs, Rhs.width?, Rhs.width?,
    Rhs.fits_of_length_le (Nat.le_of_lt h), hhead]
  by_cases hfits : Rhs.fits places front = true
  · simp only [if_pos hfits, Option.filter_some, hnext]
  · simp only [if_neg hfits, Option.filter_none]

theorem widthAt?_of_clears
    {endings : List (List Expect)}
    {before : Option Symbol}
    {s : Symbol}
    {front rest : List Symbol}
    {p : Production}
    (hclears : p.clears endings before (s :: front) = true)
    (hrest : Guard.avoids endings rest = true) :
    p.widthAt? .primary before (s :: (front ++ rest)) = none := by
  rw [Guard.avoids, Bool.and_eq_true] at hrest
  obtain ⟨hopen, hendings⟩ := hrest
  cases hrhs : p.rhs with
  | sequence places =>
      simp only [clears, hrhs] at hclears
      split at hclears
      · next hlength =>
          rw [← List.cons_append, widthAt?_append hrhs hlength]
          exact Option.isNone_iff_eq_none.1 hclears
      · rw [widthAt?, hrhs, Rhs.width?, if_neg, Option.filter_none]
        intro hfits
        rw [← List.cons_append] at hfits
        obtain ⟨left, hleft, hfits'⟩ := Rhs.fits_append hfits
        rw [hleft, Option.all_some, List.any_eq_true] at hclears
        obtain ⟨ending, hmem, hinitial⟩ := hclears
        have hno := List.all_eq_true.1 hendings ending hmem
        rw [Rhs.fits_of_isPrefixOf hinitial hfits'] at hno
        simp at hno
  | chain =>
      simp only [clears, hrhs] at hclears
      simp_all [widthAt?, Rhs.width?]
  | block =>
      simp only [clears, hrhs, List.head?_cons, Option.any_some, Bool.or_eq_true] at hclears
      rcases hclears with hbrace | hlength
      · simp_all [widthAt?, Rhs.width?]
      · obtain rfl : front = [] := by simpa using hlength
        rw [widthAt?, hrhs, List.nil_append, Rhs.width?, Rhs.getElem?_expressions]
        simp_all

theorem mem_all
    (p : Production) :
    p ∈ all := by
  cases p <;> decide

end Production

/-- No window starts in the symbols, wherever it would. -/
def Guard.clear
    (endings : List (List Expect)) :
    Option Symbol → List Symbol → Bool
  | _, [] => true
  | before, s :: front =>
      Production.all.all (·.clears endings before (s :: front))
        && Guard.clear endings (some s) front

theorem Production.skips_of_clear
    {endings : List (List Expect)}
    {before : Option Symbol}
    {front rest : List Symbol}
    (p : Production)
    (hclear : Guard.clear endings before front = true)
    (hrest : Guard.avoids endings rest = true) :
    p.Skips before front rest := by
  induction front generalizing before with
  | nil =>
      trivial
  | cons s front ih =>
      rw [Guard.clear, Bool.and_eq_true, List.all_eq_true] at hclear
      exact ⟨widthAt?_of_clears (hclear.1 p p.mem_all) hrest, ih hclear.2⟩

/-- A checked context is separated from a rest that avoids its endings. -/
theorem Limb.separates_of_clear
    {endings : List (List Expect)}
    {outer : List Symbol → Bool}
    {front : List Limb}
    (houter : Sketchable outer)
    (hclear : Guard.clear endings none (sketch front) = true)
    (hneutral : (sketch front).getLast?.all Symbol.isNeutral = true)
    (hkeep : ∀ rest, Guard.avoids endings rest = true → outer (sketch front ++ rest) = true) :
    Separates (Guard.avoids endings) outer (symbols front) := by
  refine Separates.of_sketch (Guard.avoids_sketchable endings) houter ⟨hneutral, ?_, hkeep⟩
  intro rest hrest p
  exact p.skips_of_clear hclear hrest

end CometLang
