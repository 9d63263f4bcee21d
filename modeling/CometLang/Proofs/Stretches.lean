import CometLang.Proofs.Placement

/-!
# Stretches of words

Each token of a program has a stretch of neighbouring words, and so has each
comment. One behind the other, these stretches are all the words of the program.
What a stretch is can be told from the texts of its words alone, whatever stands
before it and behind it. So the stretches of the tokens can be read again without
those of the comments, at other places, and to tokens of the same kinds and
values.
-/

namespace CometLang

open Text

/-- Words from one that opens a comment to the first one that closes it. -/
inductive IsComment : List Word → Prop
  | closed
      {word : Word}
      (hopening : "/*".toList <+: word.text)
      (hlength : 4 ≤ byteLength word.text)
      (hclosing : "*/".toList <:+ word.text) :
      IsComment [word]
  | goesOn
      {opening closing : Word}
      {middle : List Word}
      (hopening : "/*".toList <+: opening.text)
      (hopen : ¬(4 ≤ byteLength opening.text ∧ "*/".toList <:+ opening.text))
      (hmiddle : ∀ word ∈ middle, ¬"*/".toList <:+ word.text)
      (hclosing : "*/".toList <:+ closing.text) :
      IsComment (opening :: middle ++ [closing])

theorem closesComment_iff
    {text : List Char} :
    closesComment text = true ↔ "*/".toList <:+ text :=
  List.isSuffixOf_iff_suffix

theorem closesComment_eq_false_iff
    {text : List Char} :
    closesComment text = false ↔ ¬"*/".toList <:+ text := by
  rw [← closesComment_iff, Bool.not_eq_true]

/-- A word that opens a comment and closes one is told from `/*/` by its bytes as well. -/
theorem four_le_length_of_byteLength
    {text : List Char}
    (hopening : "/*".toList <+: text)
    (hclosing : "*/".toList <:+ text)
    (h : 4 ≤ byteLength text) :
    4 ≤ text.length := by
  obtain ⟨rest, rfl⟩ := hopening
  match rest with
  | [] =>
      revert h
      decide
  | [c] =>
      obtain ⟨front, hfront⟩ := hclosing
      obtain rfl : '/' = c := by
        simpa using congrArg List.getLast? hfront
      revert h
      decide
  | c :: d :: rest =>
      simp

namespace Token

/-- The words are all those of the token. -/
inductive Stretch (file : String) : List Word → Token → Prop
  | word
      {kind : Kind}
      {word : Word}
      (hclass : WordClass.of word.text = .token kind) :
      Stretch file [word] (ofWord file kind word)
  | closedString
      {word : Word}
      (hclass : WordClass.of word.text = .openString)
      (hclosed : isClosedString word.text = true) :
      Stretch file [word] (ofWord file .string word)
  | string
      {opening closing : Word}
      {middle : List Word}
      (hclass : WordClass.of opening.text = .openString)
      (hopen : isClosedString opening.text = false)
      (hmiddle : ∀ word ∈ middle, closesString word.text = false)
      (hclosing : closesString closing.text = true) :
      Stretch file (opening :: middle ++ [closing])
        (ofString file opening closing ((opening :: middle ++ [closing]).map Word.text).reverse)

/-- The words are those of the tokens and of comments between them, in order. -/
inductive Tiles (file : String) : List Word → List Token → Prop
  | none :
      Tiles file [] []
  | token
      {part rest : List Word}
      {t : Token}
      {tokens : List Token}
      (ht : Stretch file part t)
      (hrest : Tiles file rest tokens) :
      Tiles file (part ++ rest) (t :: tokens)
  | comment
      {part rest : List Word}
      {tokens : List Token}
      (hpart : IsComment part)
      (hrest : Tiles file rest tokens) :
      Tiles file (part ++ rest) tokens

variable {file : String}

theorem Scans.tiles
    {words : List Word}
    {tokens : List Token}
    (h : Scans file words tokens) :
    Tiles file words tokens := by
  induction h with
  | none =>
      exact .none
  | word hclass _ ih =>
      exact .token (.word hclass) ih
  | closedString hclass hclosed _ ih =>
      exact .token (.closedString hclass hclosed) ih
  | string hclass hopen hmiddle hclosing _ ih =>
      simpa using Tiles.token (.string hclass hopen hmiddle hclosing) ih
  | @closedComment word _ _ hclass hlength hclosed _ ih =>
      have hopening := WordClass.tells_of word.text
      rw [hclass] at hopening
      refine .comment (.closed hopening ?_ (closesComment_iff.1 hclosed)) ih
      exact Nat.le_trans hlength (length_le_byteLength word.text)
  | @comment opening closing middle rest tokens hclass hopen hmiddle hclosing _ ih =>
      have hopening := WordClass.tells_of opening.text
      rw [hclass] at hopening
      have hpart : IsComment (opening :: middle ++ [closing]) := by
        refine .goesOn hopening ?_ ?_ (closesComment_iff.1 hclosing)
        · rintro ⟨hlength, hcloses⟩
          rcases hopen with hshort | hopen
          · have hlong := four_le_length_of_byteLength hopening hcloses hlength
            omega
          · exact closesComment_eq_false_iff.1 hopen hcloses
        · intro word hword
          exact closesComment_eq_false_iff.1 (hmiddle word hword)
      simpa using Tiles.comment hpart ih

/-! ## The words of one token -/

namespace Stretch

variable {part : List Word}
variable {t : Token}

theorem ne_nil
    (h : Stretch file part t) :
    part ≠ [] := by
  cases h <;> simp

/-- The value is the words joined by single spaces. -/
theorem toList_value
    (h : Stretch file part t) :
    t.value.toList = joinWords (part.map Word.text) := by
  cases h with
  | word _ =>
      simp [ofWord, Word.toText, joinWords]
  | closedString _ _ =>
      simp [ofWord, Word.toText, joinWords]
  | string _ _ _ _ =>
      rw [ofString, stringText, String.toList_ofList, List.reverse_reverse]

/-- Only a string has several words. -/
theorem exists_word
    (h : Stretch file part t)
    (hkind : t.kind ≠ .string) :
    ∃ word, part = [word] := by
  cases h with
  | word _ =>
      exact ⟨_, rfl⟩
  | closedString _ _ =>
      exact ⟨_, rfl⟩
  | string _ _ _ _ =>
      exact absurd rfl hkind

/-- The token begins with the first word. -/
theorem start
    (h : Stretch file part t) :
    ∃ word ∈ part.head?, t.span.start = word.place file := by
  cases h with
  | word _ =>
      exact ⟨_, rfl, rfl⟩
  | closedString _ _ =>
      exact ⟨_, rfl, rfl⟩
  | string _ _ _ _ =>
      exact ⟨_, rfl, rfl⟩

/-- The token ends with the last word. -/
theorem stop
    (h : Stretch file part t) :
    ∃ word ∈ part.getLast?, t.span.stop = ⟨word.stop, file⟩ := by
  cases h with
  | word _ =>
      exact ⟨_, rfl, rfl⟩
  | closedString _ _ =>
      exact ⟨_, rfl, rfl⟩
  | string _ _ _ _ =>
      exact ⟨_, List.getLast?_concat, rfl⟩

/-- The same words at other places are those of a token of the same kind and value. -/
theorem exists_of_texts
    (h : Stretch file part t)
    (file' : String)
    {part' : List Word}
    (htexts : part'.map Word.text = part.map Word.text) :
    ∃ t', Stretch file' part' t' ∧ t'.kind = t.kind ∧ t'.value = t.value := by
  cases h with
  | @word kind word hclass =>
      obtain ⟨word', hpart, htext⟩ := List.map_eq_singleton_iff.1 htexts
      subst hpart
      refine ⟨_, .word (htext ▸ hclass), rfl, ?_⟩
      rw [ofWord, ofWord, Word.toText, Word.toText, htext]
  | @closedString word hclass hclosed =>
      obtain ⟨word', hpart, htext⟩ := List.map_eq_singleton_iff.1 htexts
      subst hpart
      refine ⟨_, .closedString (htext ▸ hclass) (htext ▸ hclosed), rfl, ?_⟩
      rw [ofWord, ofWord, Word.toText, Word.toText, htext]
  | @string opening closing middle hclass hopen hmiddle hclosing =>
      have hvalue := htexts
      rw [List.map_append] at htexts
      obtain ⟨front, last, rfl, hfront, hlast⟩ := List.map_eq_append_iff.1 htexts
      obtain ⟨opening', middle', rfl, hopening', hmiddle'⟩ := List.map_eq_cons_iff.1 hfront
      obtain ⟨closing', rfl, hclosing'⟩ := List.map_eq_singleton_iff.1 hlast
      have hinner : ∀ word ∈ middle', closesString word.text = false := by
        have htexts' : ∀ text ∈ middle'.map Word.text, closesString text = false := by
          rw [hmiddle']
          simpa using hmiddle
        simpa using htexts'
      rw [← hopening'] at hclass hopen
      rw [← hclosing'] at hclosing
      refine ⟨_, .string hclass hopen hinner hclosing, rfl, ?_⟩
      rw [ofString, ofString, hvalue]

end Stretch

/-! ## Reading stretches -/

/-- An open string takes in words to the first one that ends with a quote. -/
theorem scanWords_append_closing
    (opening : Word)
    (parts : List (List Char))
    {middle : List Word}
    (hmiddle : ∀ word ∈ middle, closesString word.text = false)
    {closing : Word}
    (hclosing : closesString closing.text = true)
    (rest : List Word) :
    scanWords file (.string opening parts) (middle ++ closing :: rest)
      = (scanWords file .plain rest).map
        (ofString file opening closing (((middle ++ [closing]).map Word.text).reverse ++ parts)
          :: ·) := by
  induction middle generalizing parts with
  | nil =>
      rw [List.nil_append, scanWords, if_pos hclosing]
      rfl
  | cons word middle ih =>
      have hword : ¬closesString word.text = true := by
        simp [hmiddle word (by simp)]
      rw [List.cons_append, scanWords, if_neg hword,
        ih _ fun word' hword' => hmiddle word' (by simp [hword'])]
      simp

/-- The words of a token are read to it, whatever stands behind them. -/
theorem Stretch.scanWords_append
    {part : List Word}
    {t : Token}
    (h : Stretch file part t)
    (rest : List Word) :
    scanWords file .plain (part ++ rest) = (scanWords file .plain rest).map (t :: ·) := by
  cases h with
  | word hclass =>
      rw [List.singleton_append, scanWords, hclass]
  | closedString hclass hclosed =>
      rw [List.singleton_append, scanWords, hclass]
      exact if_pos hclosed
  | @string opening closing middle hclass hopen hmiddle hclosing =>
      rw [List.append_assoc, List.cons_append, scanWords, hclass, List.singleton_append]
      dsimp only
      rw [hopen, if_neg Bool.false_ne_true, scanWords_append_closing opening _ hmiddle hclosing]
      simp

/-- Without the comments the words are those of the tokens. -/
theorem Tiles.exists_parts
    {words : List Word}
    {tokens : List Token}
    (h : Tiles file words tokens) :
    ∃ parts : List (List Word),
      List.Forall₂ (Stretch file) parts tokens ∧ parts.flatten.Sublist words := by
  induction h with
  | none =>
      exact ⟨[], .nil, .slnil⟩
  | @token part _ _ _ ht _ ih =>
      obtain ⟨parts, hparts, hwords⟩ := ih
      exact ⟨part :: parts, .cons ht hparts, (List.Sublist.refl part).append hwords⟩
  | @comment part _ _ _ _ ih =>
      obtain ⟨parts, hparts, hwords⟩ := ih
      exact ⟨parts, hparts, hwords.trans (List.sublist_append_right _ _)⟩

end Token
end CometLang
