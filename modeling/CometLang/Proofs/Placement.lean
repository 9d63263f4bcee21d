import Mathlib.Data.List.Nodup
import Mathlib.Data.List.Perm.Basic
import CometLang.Proofs.TagReading

/-!
# Where words and tokens stand

A word stands in a text where its offset says: so many bytes lie before it, and
on both sides it goes as far as the next blank. These are just the words that a
text is split into. Words that follow each other have larger and larger offsets.

Both readers give every token the place of the word at which it begins, and
they go through the words from left to right. So no two tokens stand at the same
place. A literal that they find is a whole number in the digits of ASCII.
-/

namespace CometLang

namespace Text

/-- The word is part of the text, at its offset and as far as the next blanks. -/
structure Word.StandsIn
    (w : Word)
    (source : List Char) : Prop where
  isWord : IsWord w.text
  around : ∃ before behind,
    source = before ++ w.text ++ behind ∧ byteLength before = w.offset ∧
      (∀ c ∈ before.getLast?, isBlank c = true) ∧ ∀ c ∈ behind.head?, isBlank c = true

namespace Word

/-- Words that follow each other have larger and larger offsets. -/
theorem pairwise_splitFrom
    (offset : Nat)
    (cs : List Char) :
    (splitFrom offset cs).Pairwise fun v w => v.offset < w.offset := by
  induction cs generalizing offset with
  | nil =>
      exact .nil
  | cons c cs ih =>
      have hsize := c.utf8Size_pos
      have hpairs := ih (offset + c.utf8Size)
      have hbehind : ∀ w ∈ splitFrom (offset + c.utf8Size) cs, offset < w.offset := by
        intro w hw
        have hle := (of_mem_splitFrom hw).1
        omega
      rw [splitFrom]
      split
      · exact hpairs
      · cases hws : splitFrom (offset + c.utf8Size) cs with
        | nil =>
            exact List.pairwise_singleton _ _
        | cons v ws =>
            rw [hws] at hpairs hbehind
            rw [glue]
            split
            · exact List.pairwise_cons.2 ⟨fun w hw => hbehind w (by simp [hw]), hpairs.of_cons⟩
            · exact List.pairwise_cons.2 ⟨hbehind, hpairs⟩

/--
A character that is not blank starts a word where it stands. The word goes on
with the one that starts right behind the character, if there is one, and all
other words stand further on.
-/
theorem splitFrom_cons
    (offset : Nat)
    {c : Char}
    (hc : isBlank c = false)
    (cs : List Char) :
    ∃ text ws, splitFrom offset (c :: cs) = ⟨offset, c :: text⟩ :: ws ∧
      (∀ w ∈ ws, offset + c.utf8Size < w.offset) ∧
      (splitFrom (offset + c.utf8Size) cs = ⟨offset + c.utf8Size, text⟩ :: ws ∨
        splitFrom (offset + c.utf8Size) cs = ws ∧ text = []) := by
  have hpairs := pairwise_splitFrom (offset + c.utf8Size) cs
  rw [splitFrom, if_neg (by simp [hc])]
  cases hws : splitFrom (offset + c.utf8Size) cs with
  | nil =>
      exact ⟨[], [], rfl, by simp, .inr ⟨rfl, rfl⟩⟩
  | cons v ws =>
      have hle := (of_mem_splitFrom (w := v) (by rw [hws]; simp)).1
      rw [hws, List.pairwise_cons] at hpairs
      rw [glue]
      split
      · next hoffset =>
          refine ⟨v.text, ws, rfl, ?_, .inl (by rw [← hoffset])⟩
          rw [← hoffset]
          exact hpairs.1
      · next hoffset =>
          refine ⟨[], v :: ws, rfl, ?_, .inr ⟨rfl, rfl⟩⟩
          intro w hw
          rcases List.mem_cons.1 hw with rfl | hw
          · omega
          · have hlt := hpairs.1 w hw
            omega

/--
The first word stands behind some blanks, and behind it the text has ended or
goes on with a blank. The other words are those of the text behind it.
-/
theorem splitFrom_eq_cons
    {offset : Nat}
    {cs : List Char}
    {w : Word}
    {ws : List Word}
    (h : splitFrom offset cs = w :: ws) :
    ∃ gap rest,
      cs = gap ++ w.text ++ rest ∧ (∀ c ∈ gap, isBlank c = true) ∧
        w.offset = offset + byteLength gap ∧ (∀ c ∈ rest.head?, isBlank c = true) ∧
        splitFrom w.stop rest = ws := by
  induction cs generalizing offset w with
  | nil =>
      cases h
  | cons c cs ih =>
      by_cases hc : isBlank c = true
      · rw [splitFrom, if_pos hc] at h
        obtain ⟨gap, rest, rfl, hgap, hoffset, hrest, hws⟩ := ih h
        refine ⟨c :: gap, rest, rfl, ?_, ?_, hrest, hws⟩
        · simpa [hc] using hgap
        · rw [hoffset, byteLength, Nat.add_assoc]
      · obtain ⟨text, ws', heq, hbehind, hgoes⟩ := splitFrom_cons offset (by simpa using hc) cs
        rw [h, List.cons.injEq] at heq
        obtain ⟨rfl, rfl⟩ := heq
        have hstop : stop ⟨offset, c :: text⟩ = offset + c.utf8Size + byteLength text := by
          rw [stop, byteLength, Nat.add_assoc]
        rcases hgoes with hword | ⟨hws, rfl⟩
        · -- The word goes on behind the character.
          obtain ⟨gap, rest, rfl, -, hoffset, hrest, hws⟩ := ih hword
          obtain rfl : gap = [] := by
            apply eq_nil_of_byteLength
            dsimp only at hoffset
            omega
          refine ⟨[], rest, rfl, by simp, rfl, hrest, ?_⟩
          rw [hstop]
          exact hws
        · -- The word ends here, since what stands behind it starts none.
          refine ⟨[], cs, rfl, by simp, rfl, ?_, by rw [hstop]; exact hws⟩
          intro d hd
          by_contra hblank
          obtain ⟨ds, rfl⟩ := List.head?_eq_some_iff.1 hd
          obtain ⟨text, ws', heq, -⟩ :=
            splitFrom_cons (offset + c.utf8Size) (by simpa using hblank) ds
          rw [hws] at heq
          have hlt := hbehind ⟨_, _⟩ (by rw [heq]; exact List.mem_cons_self)
          exact Nat.lt_irrefl _ hlt

/-- Every word stands where its offset says. -/
theorem exists_around
    {offset : Nat}
    {cs : List Char}
    {w : Word}
    (h : w ∈ splitFrom offset cs) :
    ∃ before behind,
      cs = before ++ w.text ++ behind ∧ w.offset = offset + byteLength before ∧
        (∀ c ∈ before.getLast?, isBlank c = true) ∧ ∀ c ∈ behind.head?, isBlank c = true := by
  induction hws : splitFrom offset cs generalizing offset cs with
  | nil =>
      rw [hws] at h
      cases h
  | cons v ws ih =>
      obtain ⟨gap, rest, rfl, hgap, hoffset, hrest, rfl⟩ := splitFrom_eq_cons hws
      rw [hws, List.mem_cons] at h
      rcases h with rfl | hw
      · exact ⟨gap, rest, rfl, hoffset, fun c hc => hgap c (List.mem_of_getLast? hc), hrest⟩
      · obtain ⟨before, behind, rfl, hplace, hbefore, hbehind⟩ := ih hw rfl
        refine ⟨gap ++ v.text ++ before, behind, by simp, ?_, ?_, hbehind⟩
        · rw [hplace, stop, hoffset, byteLength_append, byteLength_append]
          omega
        · -- The word does not start right behind the one before it: there is a blank first.
          cases before with
          | nil =>
              obtain ⟨hne, hnot⟩ := (of_mem_splitFrom hw).2
              obtain ⟨c, text, htext⟩ := List.exists_cons_of_ne_nil hne
              have hblank := hrest c (by simp [htext])
              rw [hnot c (by simp [htext])] at hblank
              cases hblank
          | cons c before =>
              simpa using hbefore

/-- What stands between blanks and has none in it is one of the words. -/
theorem mem_splitFrom_append
    (offset : Nat)
    {before text behind : List Char}
    (hword : IsWord text)
    (hbefore : ∀ c ∈ before.getLast?, isBlank c = true)
    (hbehind : ∀ c ∈ behind.head?, isBlank c = true) :
    ⟨offset + byteLength before, text⟩ ∈ splitFrom offset (before ++ text ++ behind) := by
  -- From the word on, it is the first of the words.
  have hfirst (start : Nat) : ⟨start, text⟩ ∈ splitFrom start (text ++ behind) := by
    rw [splitFrom_append start text hbehind, splitFrom_of_isWord start hword]
    exact List.mem_append_left _ (List.mem_singleton_self _)
  rw [List.append_assoc]
  rcases before.eq_nil_or_concat with rfl | ⟨init, blank, rfl⟩
  · exact hfirst offset
  · have hblank : isBlank blank = true := hbefore blank (by simp)
    rw [List.concat_eq_append, List.append_assoc, List.singleton_append,
      splitFrom_append_blank offset init hblank]
    exact List.mem_append_right _ (hfirst _)

/-- A text is split into the words that stand in it. -/
theorem mem_split_iff
    {source : String}
    {w : Word} :
    w ∈ split source ↔ w.StandsIn source.toList := by
  constructor
  · intro h
    obtain ⟨before, behind, heq, hoffset, hbefore, hbehind⟩ := exists_around h
    exact ⟨(of_mem_splitFrom h).2, before, behind, heq, by omega, hbefore, hbehind⟩
  · rintro ⟨hword, before, behind, heq, hoffset, hbefore, hbehind⟩
    obtain ⟨offset, text⟩ := w
    obtain rfl : 0 + byteLength before = offset := by rw [Nat.zero_add, hoffset]
    rw [split, heq]
    exact mem_splitFrom_append 0 hword hbefore hbehind

/-- The words that stand in the text, from left to right. -/
structure Enumerates
    (words : List Word)
    (source : List Char) : Prop where
  mem_iff : ∀ w, w ∈ words ↔ w.StandsIn source
  ordered : words.Pairwise fun v w => v.offset < w.offset

theorem Enumerates.nodup
    {words : List Word}
    {source : List Char}
    (h : Enumerates words source) :
    words.Nodup := by
  refine h.ordered.imp fun hlt heq => ?_
  rw [heq] at hlt
  exact Nat.lt_irrefl _ hlt

/-- There is one such list, and a text is split into it. -/
theorem enumerates_iff
    {words : List Word}
    {source : String} :
    Enumerates words source.toList ↔ words = split source := by
  have hsplit : Enumerates (split source) source.toList :=
    ⟨fun _ => mem_split_iff, pairwise_splitFrom 0 source.toList⟩
  constructor
  · intro h
    have hmem (w : Word) : w ∈ words ↔ w ∈ split source :=
      (h.mem_iff w).trans (hsplit.mem_iff w).symm
    have hperm : words.Perm (split source) :=
      (List.perm_ext_iff_of_nodup h.nodup hsplit.nodup).2 hmem
    exact hperm.eq_of_pairwise (fun _ _ _ _ hlt hgt => absurd hgt (Nat.lt_asymm hlt))
      h.ordered hsplit.ordered
  · rintro rfl
    exact hsplit

/-- Where the word starts. -/
def place
    (file : String)
    (w : Word) : Position :=
  ⟨w.offset, file⟩

theorem nodup_place_split
    (source file : String) :
    ((split source).map (place file)).Nodup := by
  rw [List.Nodup, List.pairwise_map]
  refine (pairwise_splitFrom 0 source.toList).imp fun hlt heq => ?_
  rw [place, place, Position.mk.injEq] at heq
  omega

end Word
end Text

open Text

/-- A word is read as a literal only if it is one. -/
theorem WordClass.isCometLiteral_of
    {text : List Char}
    (h : WordClass.of text = .token .cometLiteral) :
    isCometLiteral text = true := by
  have htells := tells_of text
  rw [h] at htells
  rcases htells with hmem | ⟨-, hliteral⟩ | ⟨hkind, -⟩
  · have hfixed := (Kind.spelling_of_mem _ hmem).1
    cases hfixed
  · exact hliteral
  · cases hkind

namespace Token

/-- The tokens begin at different words, from left to right, and their literals are such. -/
structure Placed
    (file : String)
    (words : List Word)
    (tokens : List Token) : Prop where
  places : (tokens.map position).Sublist (words.map (Word.place file))
  literal : ∀ t ∈ tokens, t.kind = .cometLiteral → isCometLiteral t.value.toList = true

namespace Placed

variable {file : String}
variable {words : List Word}
variable {tokens : List Token}

/-- A token begins at the first word. -/
theorem cons
    {t : Token}
    {word : Word}
    (hposition : t.position = word.place file)
    (hliteral : t.kind = .cometLiteral → isCometLiteral t.value.toList = true)
    (h : Placed file words tokens) :
    Placed file (word :: words) (t :: tokens) := by
  constructor
  · rw [List.map_cons, List.map_cons, hposition]
    exact h.places.cons_cons _
  · exact List.forall_mem_cons.2 ⟨hliteral, h.literal⟩

/-- No token begins at some of the words. -/
theorem skip
    {words' : List Word}
    (h : Placed file words tokens)
    (hwords : words.Sublist words') :
    Placed file words' tokens :=
  ⟨h.places.trans (hwords.map _), h.literal⟩

end Placed

theorem Scans.placed
    {file : String}
    {words : List Word}
    {tokens : List Token}
    (h : Scans file words tokens) :
    Placed file words tokens := by
  induction h with
  | none =>
      exact ⟨.slnil, by simp⟩
  | word hclass _ ih =>
      refine ih.cons rfl ?_
      rintro rfl
      rw [ofWord, Word.toText, String.toList_ofList]
      exact WordClass.isCometLiteral_of hclass
  | closedString _ _ _ ih =>
      exact ih.cons rfl fun hkind => by cases hkind
  | string _ _ _ _ _ ih =>
      refine Placed.cons rfl (fun hkind => by cases hkind) (ih.skip ?_)
      exact (List.sublist_cons_self _ _).trans (List.sublist_append_right _ _)
  | closedComment _ _ _ _ ih =>
      exact ih.skip (List.sublist_cons_self _ _)
  | comment _ _ _ _ _ ih =>
      exact ih.skip ((List.sublist_cons_self _ _).trans (List.sublist_append_right _ _))

/-- A tag names a literal only if one stands behind its marker. -/
theorem isCometLiteral_of_readTag?
    {tag value : String}
    (h : readTag? tag = some (.cometLiteral, value)) :
    isCometLiteral value.toList = true := by
  rw [readTag?] at h
  split at h
  · next kind hkind =>
      rw [Option.some.injEq, Prod.mk.injEq] at h
      have htag := List.find?_some hkind
      rw [h.1] at htag
      cases htag
  · split at h
    · cases h
    · split at h
      · cases h
      · obtain ⟨literal, hliteral, heq⟩ := Option.map_eq_some_iff.1 h
        rw [Prod.mk.injEq] at heq
        rw [← heq.2, String.toList_ofList]
        exact (Option.filter_eq_some_iff.1 hliteral).2

/-- A token of a tag begins where the tag does. -/
theorem of_ofTag
    {tag : String}
    {position : Position}
    {t : Token}
    (h : ofTag tag position = .ok t) :
    t.position = position ∧ (t.kind = .cometLiteral → isCometLiteral t.value.toList = true) := by
  rw [ofTag] at h
  split at h
  · next kind value hread =>
      cases h
      refine ⟨rfl, ?_⟩
      rintro rfl
      exact isCometLiteral_of_readTag? hread
  · cases h

/-- The words of an open string begin with its first one. -/
theorem placed_readWords
    {file : String}
    {opening? : Option (Word × List (List Char))}
    {words : List Word}
    {tokens : List Token}
    (h : readWords file opening? words = .ok tokens) :
    Placed file ((opening?.map Prod.fst).toList ++ words) tokens := by
  -- A token that is read begins at the given word, and the others at words behind it.
  have hread {tag : String} {word : Word} {rest : List Word} {tokens : List Token}
      (hrest : ∀ tokens', readWords file none rest = .ok tokens' → Placed file rest tokens')
      (htokens : (do
        let token ← ofTag tag ⟨word.offset, file⟩
        let tokens ← readWords file none rest
        return token :: tokens) = .ok tokens) :
      Placed file (word :: rest) tokens := by
    obtain ⟨t, tokens', htag, hbehind, rfl⟩ := exists_of_read_cons htokens
    exact .cons (of_ofTag htag).1 (of_ofTag htag).2 (hrest tokens' hbehind)
  induction words generalizing opening? tokens with
  | nil =>
      cases opening? with
      | none =>
          cases h
          exact ⟨.slnil, by simp⟩
      | some opening =>
          cases h
  | cons word rest ih =>
      cases opening? with
      | none =>
          rw [readWords] at h
          split at h
          · exact ih h
          · exact hread (fun tokens' htokens' => ih htokens') h
      | some opening =>
          rw [readWords] at h
          split at h
          · have hskip := hread (fun tokens' htokens' => ih htokens') h
            exact hskip.skip ((List.sublist_cons_self word rest).cons_cons _)
          · exact (ih h).skip ((List.sublist_cons_self word rest).cons_cons _)

/-! ## Both readers -/

/-- The tokens are those of a source text, or those that a text of tags names. -/
def Read (tokens : List Token) : Prop :=
  ∃ source file, scan source file = .ok tokens ∨ readTags source file = .ok tokens

namespace Read

variable {tokens : List Token}

theorem exists_placed
    (h : Read tokens) :
    ∃ source file, Placed file (Word.split source) tokens := by
  obtain ⟨source, file, hscan | htags⟩ := h
  · exact ⟨source, file, (scans_of_scanWords hscan).placed⟩
  · exact ⟨source, file, placed_readWords htags⟩

/-- The literals of a program that was read are such. -/
theorem literal
    (h : Read tokens) :
    ∀ t ∈ tokens, t.kind = .cometLiteral → isCometLiteral t.value.toList = true := by
  obtain ⟨source, file, hplaced⟩ := h.exists_placed
  exact hplaced.literal

/-- No two tokens of a program that was read stand at the same place. -/
theorem nodup_positions
    (h : Read tokens) :
    (tokens.map position).Nodup := by
  obtain ⟨source, file, hplaced⟩ := h.exists_placed
  exact (Word.nodup_place_split source file).sublist hplaced.places

end Read
end Token
end CometLang
