import CometLang.Proofs.Parts
import CometLang.Proofs.Stretches

/-!
# Spans and the source

The span of a token is the part of the source that the words of the token take up.
Since the words of a program are those of its tokens and of comments between them,
the spans follow each other with blanks between them, and a word outside all spans
is one of a comment.

What the words of a text are is said by where they stand in it, not by how the text
is split.
-/

namespace CometLang

open Text

namespace Token

/-- The word lies in the span of the token. -/
def Covers
    (t : Token)
    (w : Word) : Prop :=
  t.span.start.offset ≤ w.offset ∧ w.stop ≤ t.span.stop.offset

instance
    (t : Token)
    (w : Word) :
    Decidable (t.Covers w) :=
  inferInstanceAs (Decidable (_ ∧ _))

/-- The word lies outside the span of the token, before it or behind it. -/
def Avoids
    (t : Token)
    (w : Word) : Prop :=
  w.stop < t.span.start.offset ∨ t.span.stop.offset < w.offset

variable {file : String} {words : List Word} {tokens : List Token}

/-- A token covers all its words. -/
theorem Stretch.covers
    {part : List Word}
    {t : Token}
    (h : Stretch file part t)
    (hpairs : part.Pairwise fun v w => v.stop < w.offset)
    {w : Word}
    (hw : w ∈ part) :
    t.Covers w := by
  obtain ⟨first, hfirst, hstart⟩ := h.start
  obtain ⟨last, hlast, hstop⟩ := h.stop
  have hle (v : Word) : v.offset ≤ v.stop := Nat.le_add_right _ _
  rw [Covers, hstart, hstop]
  constructor
  · obtain ⟨tail, rfl⟩ := List.head?_eq_some_iff.1 hfirst
    rcases List.mem_cons.1 hw with rfl | hw
    · exact Nat.le_refl _
    · have hlt := (List.pairwise_cons.1 hpairs).1 w hw
      exact Nat.le_trans (hle first) (Nat.le_of_lt hlt)
  · obtain ⟨init, rfl⟩ := List.getLast?_eq_some_iff.1 hlast
    rcases List.mem_append.1 hw with hw | hw
    · have hlt := (List.pairwise_append.1 hpairs).2.2 w hw last (by simp)
      exact Nat.le_trans (Nat.le_of_lt hlt) (hle last)
    · obtain rfl := List.mem_singleton.1 hw
      exact Nat.le_refl _

namespace Tiles

/-- Every token has its words among all words. -/
theorem exists_stretch
    (h : Tiles file words tokens)
    {t : Token}
    (ht : t ∈ tokens) :
    ∃ before part behind, words = before ++ part ++ behind ∧ Stretch file part t := by
  induction h with
  | none =>
      cases ht
  | @token part rest _ _ hpart _ ih =>
      rcases List.mem_cons.1 ht with rfl | ht
      · exact ⟨[], part, rest, rfl, hpart⟩
      · obtain ⟨before, part', behind, rfl, ht⟩ := ih ht
        exact ⟨part ++ before, part', behind, by simp, ht⟩
  | @comment part _ _ _ _ ih =>
      obtain ⟨before, part', behind, rfl, ht⟩ := ih ht
      exact ⟨part ++ before, part', behind, by simp, ht⟩

/-- Tokens begin where one of the words does. -/
theorem exists_first
    (h : Tiles file words tokens)
    {t : Token}
    (ht : t ∈ tokens) :
    ∃ w ∈ words, t.span.start.offset = w.offset := by
  obtain ⟨before, part, behind, rfl, hpart⟩ := h.exists_stretch ht
  obtain ⟨w, hw, hstart⟩ := hpart.start
  exact ⟨w, by simp [List.mem_of_head? hw], by rw [hstart]; rfl⟩

/-- Tokens end where one of the words does. -/
theorem exists_last
    (h : Tiles file words tokens)
    {t : Token}
    (ht : t ∈ tokens) :
    ∃ w ∈ words, t.span.stop.offset = w.stop := by
  obtain ⟨before, part, behind, rfl, hpart⟩ := h.exists_stretch ht
  obtain ⟨w, hw, hstop⟩ := hpart.stop
  exact ⟨w, by simp [List.mem_of_getLast? hw], by rw [hstop]⟩

/-- The spans of the tokens follow each other, with room between them. -/
theorem pairwise_span
    (h : Tiles file words tokens)
    (hpairs : words.Pairwise fun v w => v.stop < w.offset) :
    tokens.Pairwise fun t t' => t.span.stop.offset < t'.span.start.offset := by
  induction h with
  | none =>
      exact .nil
  | token ht hrest ih =>
      obtain ⟨-, hpairs', hacross⟩ := List.pairwise_append.1 hpairs
      refine List.pairwise_cons.2 ⟨?_, ih hpairs'⟩
      intro t' ht'
      obtain ⟨last, hlast, hstop⟩ := ht.stop
      obtain ⟨first, hfirst, hstart⟩ := hrest.exists_first ht'
      rw [hstop, hstart]
      exact hacross last (List.mem_of_getLast? hlast) first hfirst
  | comment _ _ ih =>
      exact ih (List.pairwise_append.1 hpairs).2.1

/-- Every word is one of a token or one of a comment, and the others tile what is around it. -/
theorem exists_of_mem
    (h : Tiles file words tokens)
    {w : Word}
    (hw : w ∈ words) :
    ∃ before part behind front back,
      words = before ++ part ++ behind ∧ w ∈ part ∧
        Tiles file before front ∧ Tiles file behind back ∧
        ((∃ t, Stretch file part t ∧ tokens = front ++ t :: back) ∨
          IsComment part ∧ tokens = front ++ back) := by
  induction h with
  | none =>
      cases hw
  | @token part rest t tokens ht hrest ih =>
      rcases List.mem_append.1 hw with hw | hw
      · exact ⟨[], part, rest, [], tokens, rfl, hw, .none, hrest, .inl ⟨t, ht, rfl⟩⟩
      · obtain ⟨before, part', behind, front, back, rfl, hw, hbefore, hbehind, hkind⟩ := ih hw
        refine ⟨part ++ before, part', behind, t :: front, back, by simp, hw,
          .token ht hbefore, hbehind, ?_⟩
        rcases hkind with ⟨t', ht', rfl⟩ | ⟨hcomment, rfl⟩
        · exact .inl ⟨t', ht', rfl⟩
        · exact .inr ⟨hcomment, rfl⟩
  | @comment part rest tokens hpart hrest ih =>
      rcases List.mem_append.1 hw with hw | hw
      · exact ⟨[], part, rest, [], tokens, rfl, hw, .none, hrest, .inr ⟨hpart, rfl⟩⟩
      · obtain ⟨before, part', behind, front, back, rfl, hw, hbefore, hbehind, hkind⟩ := ih hw
        exact ⟨part ++ before, part', behind, front, back, by simp, hw,
          .comment hpart hbefore, hbehind, hkind⟩

/-- Every word is covered by a token, or is one of a comment that all tokens avoid. -/
theorem covers_or_isComment
    (h : Tiles file words tokens)
    (hpairs : words.Pairwise fun v w => v.stop < w.offset)
    {w : Word}
    (hw : w ∈ words) :
    (∃ t ∈ tokens, t.Covers w) ∨
      ∃ before comment behind,
        words = before ++ comment ++ behind ∧ IsComment comment ∧ w ∈ comment ∧
          ∀ v ∈ comment, ∀ t ∈ tokens, t.Avoids v := by
  obtain ⟨before, part, behind, front, back, rfl, hw, hbefore, hbehind, hkind⟩ :=
    h.exists_of_mem hw
  obtain ⟨hpairs', -, hright⟩ := List.pairwise_append.1 hpairs
  obtain ⟨-, hpart, hleft⟩ := List.pairwise_append.1 hpairs'
  rcases hkind with ⟨t, ht, rfl⟩ | ⟨hcomment, rfl⟩
  · exact .inl ⟨t, by simp, ht.covers hpart hw⟩
  · refine .inr ⟨before, part, behind, rfl, hcomment, hw, ?_⟩
    intro v hv t ht
    rcases List.mem_append.1 ht with ht | ht
    · obtain ⟨last, hlast, hstop⟩ := hbefore.exists_last ht
      right
      rw [hstop]
      exact hleft last hlast v hv
    · obtain ⟨first, hfirst, hstart⟩ := hbehind.exists_first ht
      left
      rw [hstart]
      exact hright v (by simp [hv]) first hfirst

end Tiles

/--
Let a source be read to some tokens. The span of each is a part of the source, not
empty, that begins and ends with a word. A token that is no string is this very part;
a string is its words joined by single spaces. The spans follow each other without
touching. Every word of the source lies in one of them, or belongs to a comment: from
a word that opens one to the first word that closes it, none of which is in a span.
-/
theorem spans_tile_source
    (source file : String)
    (tokens : List Token)
    (h : scan source file = .ok tokens) :
    (∀ t ∈ tokens,
      t.span.start.offset < t.span.stop.offset ∧
        t.span.stop.offset ≤ source.utf8ByteSize ∧
        ∃ inside,
          IsPart source.toList t.span.start.offset t.span.stop.offset inside ∧
            (t.kind ≠ .string → t.value.toList = inside) ∧
            (t.kind = .string →
              ∃ words, Word.Enumerates words inside ∧
                t.value.toList = joinWords (words.map Word.text))) ∧
      (tokens.Pairwise fun t t' => t.span.stop.offset < t'.span.start.offset) ∧
      ∀ w : Word, w.StandsIn source.toList →
        (∃ t ∈ tokens, t.Covers w) ∨
          ∃ before comment behind,
            Word.Enumerates (before ++ comment ++ behind) source.toList ∧
              IsComment comment ∧ w ∈ comment ∧
              ∀ v ∈ comment, ∀ t ∈ tokens, t.Avoids v := by
  have htiles := (scans_of_scanWords h).tiles
  have hpairs := Word.pairwise_stop_splitFrom 0 source.toList
  refine ⟨fun t ht => ?_, htiles.pairwise_span hpairs, fun w hw => ?_⟩
  · obtain ⟨before, part, behind, hwords, hpart⟩ := htiles.exists_stretch ht
    obtain ⟨first, hfirst, hstart⟩ := hpart.start
    obtain ⟨last, hlast, hstop⟩ := hpart.stop
    obtain ⟨inside, hinside, hsplit⟩ := Word.exists_isPart hwords hfirst hlast
    rw [hstart, hstop, ← byteLength_toList]
    refine ⟨hinside.start_lt_stop, hinside.stop_le, inside, hinside, ?_, ?_⟩
    · intro hkind
      obtain ⟨word, rfl⟩ := hpart.exists_word hkind
      cases hfirst
      cases hlast
      rw [hpart.toList_value, Word.eq_text_of_isPart hinside hsplit]
      simp [joinWords]
    · intro _
      have hlisted : Word.Enumerates (Word.splitFrom 0 inside) inside := by
        rw [← String.toList_ofList (l := inside)]
        exact Word.enumerates_iff.2 rfl
      refine ⟨_, hlisted, ?_⟩
      rw [hpart.toList_value, ← hsplit, Word.map_text_splitFrom]
  · rcases htiles.covers_or_isComment hpairs (Word.mem_split_iff.2 hw) with
      hcovers | ⟨before, comment, behind, hwords, hcomment⟩
    · exact .inl hcovers
    · exact .inr ⟨before, comment, behind, Word.enumerates_iff.2 hwords.symm, hcomment⟩

/-- A comment of three words, a string of two words, and accents in both. -/
def accented : String :=
  "x /* à é*/ \"ô  û\" ;"

/-- The tokens of the accented source. -/
def accentedTokens : List Token :=
  [⟨.identifier, "x", ⟨⟨0, "a"⟩, ⟨1, "a"⟩⟩⟩,
   ⟨.string, "\"ô û\"", ⟨⟨13, "a"⟩, ⟨21, "a"⟩⟩⟩,
   ⟨.semicolon, ";", ⟨⟨22, "a"⟩, ⟨23, "a"⟩⟩⟩]

/--
The string takes up eight bytes and is its two words with one space. The last word of
the comment lies in no span.
-/
theorem spans_tile_accented :
    scan accented "a" = .ok accentedTokens ∧
      (∃ inside words, IsPart accented.toList 13 21 inside ∧ Word.Enumerates words inside ∧
        "\"ô û\"".toList = joinWords (words.map Word.text)) ∧
      ∃ before comment behind,
        Word.Enumerates (before ++ comment ++ behind) accented.toList ∧ IsComment comment ∧
          ⟨8, "é*/".toList⟩ ∈ comment := by
  have hscan : scan accented "a" = .ok accentedTokens := by
    decide +kernel
  have hnone : ∀ t ∈ accentedTokens, ¬t.Covers ⟨8, "é*/".toList⟩ := by
    decide
  obtain ⟨hspans, -, hwords⟩ := spans_tile_source _ _ _ hscan
  refine ⟨hscan, ?_, ?_⟩
  · obtain ⟨-, -, inside, hinside, -, hvalue⟩ :=
      hspans ⟨.string, "\"ô û\"", ⟨⟨13, "a"⟩, ⟨21, "a"⟩⟩⟩ (by decide)
    obtain ⟨words, hlisted, hjoined⟩ := hvalue rfl
    exact ⟨inside, words, hinside, hlisted, hjoined⟩
  · have hblank : ∀ c ∈ some ' ', isBlank c = true := by
      rintro c ⟨⟩
      rfl
    have hbefore : "x /* à ".toList.getLast? = some ' ' := by
      decide
    have hbehind : " \"ô  û\" ;".toList.head? = some ' ' := by
      decide
    have hstands : Word.StandsIn ⟨8, "é*/".toList⟩ accented.toList :=
      ⟨by decide, _, _, by decide, by decide, hbefore ▸ hblank, hbehind ▸ hblank⟩
    rcases hwords _ hstands with
      ⟨t, ht, hcovers⟩ | ⟨before, comment, behind, hlisted, hcomment, hmem, -⟩
    · exact absurd hcovers (hnone t ht)
    · exact ⟨before, comment, behind, hlisted, hcomment, hmem⟩

end Token
end CometLang
