import CometLang.Proofs.Reading

/-!
# Items one after the other

After the tokens of an item are read, a statement is gathered, but a bare
arithmetic expression still waits for what follows: the first token of another
item, or the brace that closes the block. Either of them settles the item
without mixing with it.

So the items of a block are read one after the other, and the closing brace
gathers them, whatever stood in front of the block.
-/

namespace CometLang

open Limb

/-- The guard under which items are read. -/
abbrev Guard.unclosed : List Symbol → Bool :=
  Guard.avoids []

theorem Guard.unclosed_sketchable :
    Sketchable Guard.unclosed :=
  Guard.avoids_sketchable []

/-- Gathered items in front make no difference. -/
theorem Guard.unclosed_append
    {front : List Symbol}
    (h : ∀ s ∈ front, s = .nonterminal .expr)
    (rest : List Symbol) :
    Guard.unclosed (front ++ rest) = Guard.unclosed rest := by
  induction front with
  | nil =>
      rfl
  | cons s front ih =>
      rw [h s List.mem_cons_self, ← ih fun t ht => h t (List.mem_cons_of_mem _ ht)]
      rfl

namespace Pending

/-- What an item is before it is settled. -/
def resting : List (List Symbol) :=
  [.nonterminal .expr] :: complete

/-- The kinds of the words that an item can start with. -/
def words : List Kind :=
  [.comet, .transmission, .orbit, .whirl, .launch]

theorem settles_words :
    ∀ k ∈ words,
      k.sketch ∈ enders ∧ schedule? .primary Guard.unclosed 6 [k.sketch] = some [] := by
  decide

theorem settles_operands :
    ∀ operand ∈ Chain.operands,
      Symbol.nonterminal operand.2 ∈ enders ∧
        schedule? .primary Guard.unclosed 6 [operand.1.sketch]
          = some [⟨0, 1, operand.2⟩] := by
  decide

/-- An operand behind an item is gathered first. -/
theorem fires_operands :
    ∀ w ∈ resting, ∀ operand ∈ Chain.operands,
      Guard.unclosed (w ++ [operand.1.sketch]) = true ∧
        (nextReduction? .primary (w ++ [operand.1.sketch])).map Prod.snd
          = some ⟨w.length, 1, operand.2⟩ := by
  decide

/-- A gathered expression becomes an item before what ends it. -/
theorem fires_enders :
    ∀ s ∈ enders,
      Guard.unclosed [.nonterminal .arithExp, s] = true ∧
        (nextReduction? .primary [.nonterminal .arithExp, s]).map Prod.snd
          = some ⟨0, 1, .expr⟩ := by
  decide

end Pending

namespace Limb

/-- The limb that a token at the start of an item becomes. -/
structure Starts
    (token : Token)
    (limb : Limb) : Prop where
  ends : limb.symbol.sketch ∈ Pending.enders
  settles : Settles .primary Guard.unclosed [leaf token] [limb]
  fires :
    ∀ limbs, sketch limbs ∈ Pending.resting →
      Fires Guard.unclosed (limbs ++ [leaf token]) (limbs ++ [limb])

theorem starts_word
    {token : Token}
    (h : token.kind ∈ Pending.words) :
    Starts token (leaf token) := by
  obtain ⟨hends, hschedule⟩ := Pending.settles_words _ h
  have hsettles := settles_of_schedule 6 [leaf token] [] Guard.unclosed_sketchable rfl hschedule
  exact ⟨hends, hsettles, fun _ _ => .refl⟩

theorem starts_operand
    {token : Token}
    {form : Nonterminal}
    (h : (token.kind, form) ∈ Chain.operands) :
    Starts token (phrase form [leaf token]) := by
  obtain ⟨hends, hschedule⟩ := Pending.settles_operands _ h
  have hsettles := settles_of_schedule 6 [leaf token] [⟨0, 1, form⟩] Guard.unclosed_sketchable
    rfl hschedule
  refine ⟨hends, hsettles, ?_⟩
  intro limbs hlimbs
  obtain ⟨hguard, hnext⟩ := Pending.fires_operands _ hlimbs _ h
  have hfires := fires_of_sketch Guard.unclosed_sketchable
    (sketch_append_leaf limbs token) hguard hnext
  have hsplice := splice_append limbs [leaf token] [] form
  rw [List.append_nil, List.length_singleton] at hsplice
  rw [length_sketch, hsplice] at hfires
  exact hfires

/-- Gathered items leave what is read behind them unclosed. -/
theorem separates_unclosed
    {front : List Limb}
    (h : ∀ limb ∈ front, limb.symbol = .nonterminal .expr) :
    Separates Guard.unclosed Guard.unclosed (symbols front) := by
  have hall : ∀ s ∈ symbols front, s = .nonterminal .expr := by
    intro s hs
    obtain ⟨limb, hlimb, rfl⟩ := List.mem_map.1 hs
    exact h limb hlimb
  refine separates_items hall fun rest hrest => ?_
  rw [Guard.unclosed_append hall, hrest]

end Limb

namespace Abstract

/--
What is left when the tokens of an item are read: a statement is gathered, and
an arithmetic expression is complete.
-/
def Item.Rests : Item → List Limb → Prop
  | .statement s, limbs => ∃ inner, limbs = [phrase .expr [inner]] ∧ s.Shows inner.tree
  | .arithmetic a, limbs =>
      sketch limbs ∈ Pending.complete ∧ Spelt a.pieces (leaves limbs)

theorem Item.Rests.resting
    {item : Item}
    {limbs : List Limb}
    (h : item.Rests limbs) :
    sketch limbs ∈ Pending.resting := by
  cases item with
  | statement s =>
      obtain ⟨inner, rfl, -⟩ := h
      exact List.mem_cons_self
  | arithmetic a =>
      exact List.mem_cons_of_mem _ h.1

/-- What ends an item gathers it. -/
theorem Item.Rests.exists_gathers
    {item : Item}
    {limbs : List Limb}
    (h : item.Rests limbs) :
    ∃ gathered,
      gathered.symbol = .nonterminal .expr ∧ item.Shows gathered.tree ∧
        ∀ ender : Limb, ender.symbol.sketch ∈ Pending.enders →
          Fires Guard.unclosed (limbs ++ [ender]) [gathered, ender] := by
  cases item with
  | statement s =>
      obtain ⟨inner, rfl, hshows⟩ := h
      exact ⟨phrase .expr [inner], rfl, ⟨inner.tree, rfl, hshows⟩, fun _ _ => .refl⟩
  | arithmetic a =>
      obtain ⟨hcomplete, hspelt⟩ := h
      refine ⟨phrase .expr [phrase .arithExp limbs], rfl, ?_, ?_⟩
      · refine ⟨(phrase .arithExp limbs).tree, rfl, trees limbs, rfl, ?_⟩
        simpa using hspelt
      · intro ender hender
        have hclose := fires_arithmetic hcomplete (List.mem_cons_of_mem _ hender)
        obtain ⟨hguard, hnext⟩ := Pending.fires_enders _ hender
        have hsketch :
            sketch [phrase .arithExp limbs, ender]
              = [.nonterminal .arithExp, ender.symbol.sketch] := rfl
        have hitem := fires_of_sketch Guard.unclosed_sketchable hsketch hguard hnext
        exact (hclose.behind (separates_nil Guard.avoids_nil)).trans hitem

/--
An item is gathered by the first token of another one, which is then read as if
it came first.
-/
theorem Item.Rests.exists_reads_next
    {item : Item}
    {limbs : List Limb}
    (h : item.Rests limbs) :
    ∃ gathered,
      gathered.symbol = .nonterminal .expr ∧ item.Shows gathered.tree ∧
        ∀ (token : Token) (first : Limb) (rest : List Token) (last : List Limb),
          Starts token first → Reads Guard.unclosed [] (token :: rest) last →
            Reads Guard.unclosed limbs (token :: rest) (gathered :: last) := by
  obtain ⟨gathered, hform, hshows, hgathers⟩ := h.exists_gathers
  refine ⟨gathered, hform, hshows, ?_⟩
  intro token first rest last hfirst hreads
  have hseparates : Separates Guard.unclosed Guard.unclosed (symbols [gathered]) :=
    separates_unclosed fun limb hlimb => by rw [List.mem_singleton.1 hlimb, hform]
  cases hreads with
  | cons hsettles hrest =>
      obtain rfl := hsettles.unique hfirst.settles
      have hfires := (hfirst.fires limbs h.resting).trans (hgathers first hfirst.ends)
      have hnext := hfires.settles (hfirst.settles.again.behind hseparates)
      exact .cons hnext (hrest.behind hseparates)

/--
What is left when the tokens of a body are read: all items but the last are
gathered.
-/
def Body.Rests
    (b : Body)
    (limbs : List Limb) : Prop :=
  ∃ front last item,
    limbs = front ++ last ∧ (∀ limb ∈ front, limb.symbol = .nonterminal .expr) ∧
      Item.Rests item last ∧
      ∀ t, item.Shows t → b.Show (trees front ++ [t])

/-- However the body is spelt, its tokens are read to limbs that show it. -/
def Body.Readable (b : Body) : Prop :=
  ∀ tokens, Spelt b.pieces tokens →
    ∃ limbs, Reads Guard.unclosed [] tokens limbs ∧ b.Rests limbs

/-- However the item is spelt, its tokens are read to limbs that show it. -/
def Item.Readable (item : Item) : Prop :=
  ∀ tokens, Spelt item.pieces tokens →
    ∃ limbs, Reads Guard.unclosed [] tokens limbs ∧ item.Rests limbs

/-- However the statement is spelt, its tokens are read to a limb that shows it. -/
def Statement.Readable (s : Statement) : Prop :=
  ∀ tokens, Spelt s.pieces tokens →
    ∃ inner, Reads Guard.unclosed [] tokens [phrase .expr [inner]] ∧ s.Shows inner.tree

/-- The pieces start as an item does. -/
def StartsItem (pieces : List Piece) : Prop :=
  ∃ piece rest,
    pieces = piece :: rest ∧
      (piece.kind ∈ Pending.words ∨ ∃ form, (piece.kind, form) ∈ Chain.operands)

theorem startsItem_operand
    (o : Operand)
    (rest : List Piece) :
    StartsItem (o.piece :: rest) :=
  ⟨o.piece, rest, rfl, .inr ⟨o.form, o.form_mem⟩⟩

theorem startsItem_word
    {piece : Piece}
    (h : piece.kind ∈ Pending.words)
    (rest : List Piece) :
    StartsItem (piece :: rest) :=
  ⟨piece, rest, rfl, .inl h⟩

theorem Statement.startsItem
    (s : Statement) :
    StartsItem s.pieces := by
  cases s with
  | declaration target value =>
      rw [Statement.pieces]
      exact startsItem_word (List.mem_of_elem_eq_true rfl) _
  | assignment target value =>
      rw [Statement.pieces]
      exact startsItem_operand (.name target) _
  | transmission argument =>
      rw [Statement.pieces]
      exact startsItem_word (List.mem_of_elem_eq_true rfl) _
  | reception target prompt =>
      rw [Statement.pieces]
      exact startsItem_operand (.name target) _
  | orbit guard body =>
      rw [Statement.pieces]
      exact startsItem_word (List.mem_of_elem_eq_true rfl) _
  | orbitPropel guard body otherwise =>
      rw [Statement.pieces]
      exact startsItem_word (List.mem_of_elem_eq_true rfl) _
  | orbitNavigatePropel guard body second alternative otherwise =>
      rw [Statement.pieces]
      exact startsItem_word (List.mem_of_elem_eq_true rfl) _
  | whirl position guard body =>
      rw [Statement.pieces]
      exact startsItem_word (List.mem_of_elem_eq_true rfl) _
  | launch position body guard =>
      rw [Statement.pieces]
      exact startsItem_word (List.mem_of_elem_eq_true rfl) _

theorem StartsItem.append
    {pieces : List Piece}
    (h : StartsItem pieces)
    (more : List Piece) :
    StartsItem (pieces ++ more) := by
  obtain ⟨piece, rest, rfl, hkind⟩ := h
  exact ⟨piece, rest ++ more, rfl, hkind⟩

theorem Item.startsItem
    (item : Item) :
    StartsItem item.pieces := by
  cases item with
  | statement s =>
      rw [Item.pieces]
      exact s.startsItem
  | arithmetic a =>
      rw [Item.pieces]
      exact startsItem_operand a.first _

theorem Body.startsItem
    (b : Body) :
    StartsItem b.pieces := by
  cases b with
  | last item =>
      rw [Body.pieces]
      exact item.startsItem
  | more item rest =>
      rw [Body.pieces]
      exact item.startsItem.append _

/-- Tokens that are spelt as an item start as one. -/
theorem StartsItem.exists_starts
    {pieces : List Piece}
    {tokens : List Token}
    (h : StartsItem pieces)
    (hspelt : Spelt pieces tokens) :
    ∃ token first rest, tokens = token :: rest ∧ Starts token first := by
  obtain ⟨piece, more, rfl, hkind⟩ := h
  obtain ⟨token, rest, rfl, htoken, -⟩ := spelt_cons hspelt
  rw [← htoken.kind] at hkind
  rcases hkind with hword | ⟨form, hoperand⟩
  · exact ⟨token, leaf token, rest, rfl, starts_word hword⟩
  · exact ⟨token, phrase form [leaf token], rest, rfl, starts_operand hoperand⟩

theorem Item.readable_statement
    {s : Statement}
    (h : s.Readable) :
    (Item.statement s).Readable := by
  intro tokens hspelt
  rw [Item.pieces] at hspelt
  obtain ⟨inner, hreads, hshows⟩ := h tokens hspelt
  exact ⟨_, hreads, inner, rfl, hshows⟩

theorem Item.readable_arithmetic
    (a : Arithmetic) :
    (Item.arithmetic a).Readable := by
  intro tokens hspelt
  rw [Item.pieces] at hspelt
  obtain ⟨last, hreads, hcomplete⟩ := Arithmetic.exists_reads hspelt
  refine ⟨last, hreads.behind (separates_nil Guard.avoids_nil), hcomplete, ?_⟩
  rw [hreads.leaves_eq]
  exact hspelt

theorem Body.readable_last
    {item : Item}
    (h : item.Readable) :
    (Body.last item).Readable := by
  intro tokens hspelt
  rw [Body.pieces] at hspelt
  obtain ⟨limbs, hreads, hrests⟩ := h tokens hspelt
  refine ⟨limbs, hreads, [], limbs, item, rfl, by simp, hrests, ?_⟩
  intro t ht
  exact ⟨t, rfl, ht⟩

theorem Body.readable_more
    {item : Item}
    {rest : Body}
    (hitem : item.Readable)
    (hrest : rest.Readable) :
    (Body.more item rest).Readable := by
  intro tokens hspelt
  rw [Body.pieces] at hspelt
  obtain ⟨us, vs, rfl, hus, hvs⟩ := spelt_append hspelt
  obtain ⟨limbs, hreads, hrests⟩ := hitem us hus
  obtain ⟨others, hreads', front, last, final, rfl, hfront, hlast, hshow⟩ := hrest vs hvs
  obtain ⟨token, first, more, rfl, hstarts⟩ := rest.startsItem.exists_starts hvs
  obtain ⟨gathered, hform, hshows, hnext⟩ := hrests.exists_reads_next
  refine ⟨_, hreads.append (hnext token first more _ hstarts hreads'),
    gathered :: front, last, final, rfl, ?_, hlast, ?_⟩
  · intro limb hlimb
    rcases List.mem_cons.1 hlimb with rfl | hlimb
    · exact hform
    · exact hfront limb hlimb
  · intro t ht
    exact ⟨gathered.tree, trees front ++ [t], rfl, hshows, hshow t ht⟩

end Abstract

/-! ## Blocks -/

/--
The symbols are the start of a statement that waits for what the endings
describe, and nothing read behind them mixes with them before it comes.
-/
def Guard.awaits
    (endings : List (List Expect))
    (w : List Symbol) : Bool :=
  Guard.clear endings none w && w.getLast?.all Symbol.isNeutral
    && w.head?.any fun s => !s.isForm .expr && !s.isKind .closeBrace

/-- A statement that waits is separated from what is read behind it. -/
theorem Limb.separates_of_awaits
    {endings : List (List Expect)}
    {front : List Limb}
    (h : Guard.awaits endings (sketch front) = true) :
    Separates (Guard.avoids endings) Guard.unclosed (symbols front) := by
  rw [Guard.awaits, Bool.and_eq_true, Bool.and_eq_true] at h
  obtain ⟨⟨hclear, hneutral⟩, hhead⟩ := h
  refine separates_of_clear Guard.unclosed_sketchable hclear hneutral ?_
  intro rest _
  cases hsketch : sketch front with
  | nil =>
      simp [hsketch] at hhead
  | cons s w =>
      simp only [hsketch, List.head?_cons, Option.any_some, Bool.and_eq_true,
        Bool.not_eq_true'] at hhead
      simp [Guard.unclosed, Guard.avoids, hhead]

namespace Opener

/-- What can stand in front of a block, from the first word of its statement on. -/
def all : List (List Symbol) :=
  [[Kind.orbit.sketch, .nonterminal .conditionalExp],
   [Kind.whirl.sketch, .nonterminal .conditionalExp],
   [Kind.launch.sketch],
   [Kind.orbit.sketch, .nonterminal .conditionalExp, .nonterminal .stmt,
    Kind.propel.sketch],
   [Kind.orbit.sketch, .nonterminal .conditionalExp, .nonterminal .stmt,
    Kind.navigate.sketch, .nonterminal .conditionalExp],
   [Kind.orbit.sketch, .nonterminal .conditionalExp, .nonterminal .stmt,
    .nonterminal .navigateStmt, Kind.propel.sketch]]

/-- The statement waits for its block. -/
def endings : List (List Expect) :=
  [[.form .stmt]]

theorem awaits :
    ∀ w ∈ all,
      Guard.awaits endings w = true ∧
        Guard.awaits [] (w ++ [Kind.openBrace.sketch]) = true ∧
        plan? Guard.unclosed w [.openBrace] = some [[]] := by
  decide

end Opener

/-- A block is read behind what opens it, and gathered. -/
theorem Abstract.Body.Readable.exists_reads_braced
    {b : Body}
    (h : b.Readable)
    {front : List Limb}
    {tokens : List Token}
    (hfront : sketch front ∈ Opener.all)
    (hspelt : Spelt (braced b.pieces) tokens) :
    ∃ block,
      block.symbol = .nonterminal .stmt ∧ Encloses b.Show block.tree ∧
        ∀ last, Settles .primary Guard.unclosed (front ++ [block]) last →
          Reads Guard.unclosed front tokens last := by
  obtain ⟨opening, rest, rfl, hopening, hrest⟩ := spelt_cons hspelt
  obtain ⟨inner, ends, rfl, hinner, hends⟩ := spelt_append hrest
  obtain ⟨closing, rfl, hclosing⟩ := spelt_one hends
  obtain ⟨_, hreads, items, last, item, rfl, hitems, hlast, hshow⟩ := h inner hinner
  obtain ⟨gathered, hform, hshows, hgathers⟩ := hlast.exists_gathers
  obtain ⟨hopener, hblock, hplan⟩ := Opener.awaits _ hfront
  have hopen : Reads Guard.unclosed front [opening] (front ++ [leaf opening]) :=
    reads_of_plan front [opening] [[]] Guard.unclosed_sketchable rfl
      (congrArg (· :: []) hopening.kind) hplan
  have hseparates :
      Separates Guard.unclosed Guard.unclosed (symbols (front ++ [leaf opening])) := by
    apply separates_of_awaits
    rw [sketch_append_leaf, hopening.kind]
    exact hblock
  have hinside := hreads.behind hseparates
  rw [List.append_nil] at hinside
  have hends : (leaf closing).symbol.sketch ∈ Pending.enders := by
    rw [symbol_leaf, Symbol.sketch, hclosing.kind]
    exact List.mem_cons_self
  have hlast := ((hgathers _ hends).behind (separates_unclosed hitems)).behind hseparates
  have hsymbols :
      symbols (items ++ [gathered]) = List.replicate (items.length + 1) (.nonterminal .expr) := by
    rw [List.eq_replicate_iff]
    refine ⟨by simp, ?_⟩
    intro s hs
    obtain ⟨limb, hlimb, rfl⟩ := List.mem_map.1 hs
    rcases List.mem_append.1 hlimb with hlimb | hlimb
    · exact hitems limb hlimb
    · rw [List.mem_singleton.1 hlimb, hform]
  have hgather := (fires_block (Guard.avoids_sketchable Opener.endings) hopening.kind hsymbols
    hclosing.kind fun _ => rfl).behind (separates_of_awaits hopener)
  refine ⟨phrase .stmt (leaf opening :: (items ++ [gathered] ++ [leaf closing])), rfl,
    ⟨opening, trees (items ++ [gathered]), closing, ?_, ?_⟩, ?_⟩
  · simp
  · rw [trees_append]
    exact hshow gathered.tree hshows
  · intro final hfinal
    have hclose := hlast.settles (by simpa using hgather.settles hfinal)
    exact hopen.append (hinside.append (.single (by simpa using hclose)))

end CometLang
