import CometLang.Proofs.Settling

/-!
# Sketches

Productions look at the kinds of tokens and never at their values or places. So
the search for the next reduction finds the same on a sketch of the symbols, in
which every token is replaced by a blank one of its kind.

On a sketch everything is known, and what is read into it can be computed. A
plan lists the reductions that are fired after each token; if the sketch has a
plan, then the limbs are read in just this way, whatever their tokens and trees.
-/

namespace CometLang

/-- A token of a kind, of which nothing else is known. -/
def Kind.sketch (k : Kind) : Symbol :=
  .terminal ⟨k, "", ⟨Position.unknown, Position.unknown⟩⟩

namespace Symbol

/-- The symbol with its token replaced by a blank one. -/
def sketch : Symbol → Symbol
  | terminal token => token.kind.sketch
  | nonterminal form => nonterminal form

@[simp] theorem sketch_terminal
    (token : Token) :
    (terminal token).sketch = token.kind.sketch := by
  rfl

@[simp] theorem sketch_nonterminal
    (form : Nonterminal) :
    (nonterminal form).sketch = nonterminal form := by
  rfl

@[simp] theorem kind?_sketch
    (s : Symbol) :
    s.sketch.kind? = s.kind? := by
  cases s <;> rfl

@[simp] theorem form?_sketch
    (s : Symbol) :
    s.sketch.form? = s.form? := by
  cases s <;> rfl

@[simp] theorem isForm_sketch
    (s : Symbol)
    (form : Nonterminal) :
    s.sketch.isForm form = s.isForm form := by
  simp [isForm]

@[simp] theorem isKind_sketch
    (s : Symbol)
    (kind : Kind) :
    s.sketch.isKind kind = s.isKind kind := by
  simp [isKind]

@[simp] theorem isArithmetic_sketch
    (s : Symbol) :
    s.sketch.isArithmetic = s.isArithmetic := by
  simp [isArithmetic]

@[simp] theorem isAccepting_sketch
    (s : Symbol) :
    s.sketch.isAccepting = s.isAccepting := by
  simp [isAccepting]

@[simp] theorem isMultiplicative_sketch
    (s : Symbol) :
    s.sketch.isMultiplicative = s.isMultiplicative := by
  simp [isMultiplicative]

end Symbol

/-! ## The search on a sketch -/

theorem Expect.admits_sketch
    (place : Expect)
    (s : Symbol) :
    place.admits s.sketch = place.admits s := by
  cases place <;> simp [admits, Symbol.isAdditive, Symbol.isMultiplicative]

namespace Rhs

theorem fits_sketch
    (places : List Expect)
    (symbols : List Symbol) :
    fits places (symbols.map Symbol.sketch) = fits places symbols := by
  induction places generalizing symbols with
  | nil =>
      simp [fits]
  | cons place places ih =>
      cases symbols with
      | nil =>
          rfl
      | cons s rest =>
          simp [fits, ih, Expect.admits_sketch]

theorem links_sketch
    (symbols : List Symbol) :
    links (symbols.map Symbol.sketch) = links symbols := by
  induction symbols using links.induct with
  | case1 op comparison rest h ih =>
      simp [links, ih]
  | case2 op comparison rest h =>
      simp only [List.map_cons, links, Symbol.isForm_sketch, if_neg h]
  | case3 symbols h =>
      cases symbols with
      | nil =>
          rfl
      | cons op rest =>
          cases rest with
          | nil =>
              rfl
          | cons comparison rest =>
              exact absurd rfl (h op comparison rest)

theorem expressions_sketch
    (symbols : List Symbol) :
    expressions (symbols.map Symbol.sketch) = expressions symbols := by
  simp [expressions, List.takeWhile_map, Function.comp_def]

theorem width?_sketch
    (rhs : Rhs)
    (symbols : List Symbol) :
    rhs.width? (symbols.map Symbol.sketch) = rhs.width? symbols := by
  cases rhs with
  | sequence places =>
      simp [width?, fits_sketch]
  | chain =>
      cases symbols with
      | nil =>
          rfl
      | cons s rest =>
          simp [width?, links_sketch]
  | block =>
      cases symbols with
      | nil =>
          rfl
      | cons s rest =>
          simp [width?, expressions_sketch, Option.any_map]

end Rhs

/-- What stands behind a window, with its token replaced by a blank one. -/
def Next.sketch : Next → Next
  | symbol s => symbol s.sketch
  | pending => pending
  | finished => finished

theorem Next.of_sketch
    (symbols : List Symbol)
    (index : Nat)
    (mode : Mode) :
    Next.of (symbols.map Symbol.sketch) index mode = (Next.of symbols index mode).sketch := by
  simp only [Next.of, List.getElem?_map]
  cases symbols[index]? <;> cases mode <;> rfl

namespace Production

theorem allows_sketch
    (p : Production)
    (before inside : Option Symbol)
    (next : Next) :
    p.allows (before.map Symbol.sketch) (inside.map Symbol.sketch) next.sketch
      = p.allows before inside next := by
  cases p <;> cases next <;>
    simp [allows, Next.sketch, Next.isSymbol, Next.endsTerm, Option.any_map]

theorem widthAt?_sketch
    (p : Production)
    (mode : Mode)
    (before : Option Symbol)
    (symbols : List Symbol) :
    p.widthAt? mode (before.map Symbol.sketch) (symbols.map Symbol.sketch)
      = p.widthAt? mode before symbols := by
  simp only [widthAt?, Rhs.width?_sketch, List.head?_map, Next.of_sketch, allows_sketch]

theorem findFrom?_sketch
    (p : Production)
    (mode : Mode)
    (before : Option Symbol)
    (start : Nat)
    (symbols : List Symbol) :
    p.findFrom? mode (before.map Symbol.sketch) start (symbols.map Symbol.sketch)
      = p.findFrom? mode before start symbols := by
  induction symbols generalizing before start with
  | nil =>
      rfl
  | cons s rest ih =>
      have hwidth := p.widthAt?_sketch mode before (s :: rest)
      have hrest := ih (some s) (start + 1)
      simp only [List.map_cons, Option.map_some] at hwidth hrest
      simp only [List.map_cons, findFrom?, hwidth, hrest]

end Production

/-- The next reduction is the same on a sketch of the symbols. -/
theorem nextReduction?_sketch
    (mode : Mode)
    (symbols : List Symbol) :
    nextReduction? mode (symbols.map Symbol.sketch) = nextReduction? mode symbols := by
  have hfind (p : Production) :
      p.find? mode (symbols.map Symbol.sketch) = p.find? mode symbols :=
    p.findFrom?_sketch mode none 0 symbols
  simp only [nextReduction?, hfind]

/-! ## Plans -/

/-- The guard only looks at the kinds of tokens. -/
def Sketchable (guard : List Symbol → Bool) : Prop :=
  ∀ symbols, guard (symbols.map Symbol.sketch) = guard symbols

/-- The symbols with the window of a reduction replaced by its phrase. -/
def spliceSymbols
    (symbols : List Symbol)
    (r : Reduction) : List Symbol :=
  symbols.take r.start ++ .nonterminal r.lhs :: symbols.drop (r.start + r.width)

/--
The reductions that are fired until none applies, if there are fewer than
`bound` of them and the guard holds throughout.
-/
def schedule?
    (mode : Mode)
    (guard : List Symbol → Bool) :
    Nat → List Symbol → Option (List Reduction)
  | 0, _ => none
  | bound + 1, symbols =>
      if guard symbols then
        match nextReduction? mode symbols with
        | none => some []
        | some (_, r) =>
            (schedule? mode guard bound (spliceSymbols symbols r)).map (r :: ·)
      else
        none

/-- The reductions that are fired after each of the tokens. -/
def plan?
    (guard : List Symbol → Bool) :
    List Symbol → List Kind → Option (List (List Reduction))
  | _, [] => some []
  | symbols, k :: kinds => do
      let first ← schedule? .primary guard 6 (symbols ++ [k.sketch])
      let rest ← plan? guard (first.foldl spliceSymbols (symbols ++ [k.sketch])) kinds
      return first :: rest

namespace Limb

/-- A sketch of the limbs' symbols. -/
def sketch (limbs : List Limb) : List Symbol :=
  (symbols limbs).map Symbol.sketch

@[simp] theorem sketch_cons
    (limb : Limb)
    (limbs : List Limb) :
    sketch (limb :: limbs) = limb.symbol.sketch :: sketch limbs := by
  rfl

@[simp] theorem sketch_nil :
    sketch [] = [] := by
  rfl

@[simp] theorem sketch_append
    (as bs : List Limb) :
    sketch (as ++ bs) = sketch as ++ sketch bs := by
  simp [sketch]

@[simp] theorem length_sketch
    (limbs : List Limb) :
    (sketch limbs).length = limbs.length := by
  simp [sketch]

/-- The limbs after the tokens are added and the reductions of a plan are fired. -/
def grow :
    List Limb → List Token → List (List Reduction) → List Limb
  | limbs, token :: tokens, first :: rest =>
      grow (first.foldl splice (limbs ++ [leaf token])) tokens rest
  | limbs, _, _ => limbs

/-- Splicing limbs splices their sketch. -/
theorem sketch_splice
    (limbs : List Limb)
    (r : Reduction) :
    sketch (splice limbs r) = spliceSymbols (sketch limbs) r := by
  simp [sketch, splice, spliceSymbols, symbols, phrase, Symbol.sketch]

theorem sketch_foldl_splice
    (limbs : List Limb)
    (reductions : List Reduction) :
    sketch (reductions.foldl splice limbs)
      = reductions.foldl spliceSymbols (sketch limbs) := by
  induction reductions generalizing limbs with
  | nil =>
      rfl
  | cons r reductions ih =>
      rw [List.foldl_cons, List.foldl_cons, ih, sketch_splice]

theorem sketch_append_leaf
    (limbs : List Limb)
    (token : Token) :
    sketch (limbs ++ [leaf token]) = sketch limbs ++ [token.kind.sketch] := by
  simp

variable {mode : Mode} {guard : List Symbol → Bool} {limbs : List Limb}

/-- Limbs whose sketch has a schedule settle according to it. -/
theorem settles_of_schedule
    {w : List Symbol}
    (bound : Nat)
    (limbs : List Limb)
    (reductions : List Reduction)
    (hguard : Sketchable guard)
    (hw : sketch limbs = w)
    (h : schedule? mode guard bound w = some reductions) :
    Settles mode guard limbs (reductions.foldl splice limbs) := by
  subst hw
  induction bound generalizing limbs reductions with
  | zero =>
      simp [schedule?] at h
  | succ bound ih =>
      rw [schedule?] at h
      split at h
      · next hholds =>
          have hholds' : guard (symbols limbs) = true :=
            hguard (symbols limbs) ▸ hholds
          split at h
          · next hnone =>
              rw [sketch, nextReduction?_sketch] at hnone
              obtain rfl := Option.some.inj h
              exact .done hholds' hnone
          · next p r hsome =>
              rw [sketch, nextReduction?_sketch] at hsome
              obtain ⟨rest, hrest, rfl⟩ := Option.map_eq_some_iff.1 h
              rw [← sketch_splice] at hrest
              exact .fire hholds' hsome (ih _ _ hrest)
      · simp at h

/-- Tokens whose kinds have a plan are read according to it. -/
theorem reads_of_plan
    {w : List Symbol}
    {kinds : List Kind}
    (limbs : List Limb)
    (tokens : List Token)
    (plan : List (List Reduction))
    (hguard : Sketchable guard)
    (hw : sketch limbs = w)
    (hkinds : tokens.map Token.kind = kinds)
    (h : plan? guard w kinds = some plan) :
    Reads guard limbs tokens (grow limbs tokens plan) := by
  subst hw hkinds
  induction tokens generalizing limbs plan with
  | nil =>
      exact .nil
  | cons token tokens ih =>
      simp only [List.map_cons, plan?, Option.bind_eq_bind, Option.bind_eq_some_iff] at h
      obtain ⟨first, hfirst, rest, hrest, hplan⟩ := h
      obtain rfl := Option.some.inj hplan
      rw [← sketch_append_leaf] at hfirst hrest
      rw [← sketch_foldl_splice] at hrest
      exact .cons (settles_of_schedule _ _ _ hguard rfl hfirst) (ih _ rest hrest)

/-- A token of the kind leads from the symbols to one of the targets. -/
def leads
    (guard : List Symbol → Bool)
    (targets : List (List Symbol))
    (w : List Symbol)
    (k : Kind) : Bool :=
  (schedule? .primary guard 6 (w ++ [k.sketch])).any fun reductions =>
    decide (reductions.foldl spliceSymbols (w ++ [k.sketch]) ∈ targets)

/-- Where all tokens of some kinds lead, there a token is read to. -/
theorem exists_reads_of_leads
    {states targets : List (List Symbol)}
    {kinds : List Kind}
    {token : Token}
    (hguard : Sketchable guard)
    (h : ∀ w ∈ states, ∀ k ∈ kinds, leads guard targets w k = true)
    (hlimbs : sketch limbs ∈ states)
    (htoken : token.kind ∈ kinds) :
    ∃ last, Reads guard limbs [token] last ∧ sketch last ∈ targets := by
  have hleads := h _ hlimbs _ htoken
  rw [leads, ← sketch_append_leaf, Option.any_eq_true] at hleads
  obtain ⟨reductions, hschedule, htargets⟩ := hleads
  refine ⟨_, .single (settles_of_schedule _ _ _ hguard rfl hschedule), ?_⟩
  rw [sketch_foldl_splice]
  exact of_decide_eq_true htargets

end Limb
end CometLang
