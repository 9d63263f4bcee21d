import CometLang.Token.Scan

/-!
# What reading a program finds

The words of a program that can be read fall into stretches. A stretch is a word
that is a token, the words of a string or the words of a comment. A string or a
comment goes on to the first word that can end it; what is read in between is
of no account.
-/

namespace CometLang
namespace Token

open Text

/-- The words fall into stretches, and the tokens are those of the stretches. -/
inductive Scans (file : String) : List Word → List Token → Prop
  | none :
      Scans file [] []
  | word
      {kind : Kind}
      {word : Word}
      {rest : List Word}
      {tokens : List Token}
      (hclass : WordClass.of word.text = .token kind)
      (hrest : Scans file rest tokens) :
      Scans file (word :: rest) (ofWord file kind word :: tokens)
  | closedString
      {word : Word}
      {rest : List Word}
      {tokens : List Token}
      (hclass : WordClass.of word.text = .openString)
      (hclosed : isClosedString word.text = true)
      (hrest : Scans file rest tokens) :
      Scans file (word :: rest) (ofWord file .string word :: tokens)
  | string
      {opening closing : Word}
      {middle rest : List Word}
      {tokens : List Token}
      (hclass : WordClass.of opening.text = .openString)
      (hopen : isClosedString opening.text = false)
      (hmiddle : ∀ word ∈ middle, closesString word.text = false)
      (hclosing : closesString closing.text = true)
      (hrest : Scans file rest tokens) :
      Scans file (opening :: middle ++ closing :: rest)
        (ofString file opening closing ((opening :: middle ++ [closing]).map Word.text).reverse
          :: tokens)
  | closedComment
      {word : Word}
      {rest : List Word}
      {tokens : List Token}
      (hclass : WordClass.of word.text = .openComment)
      (hlength : 4 ≤ word.text.length)
      (hclosed : closesComment word.text = true)
      (hrest : Scans file rest tokens) :
      Scans file (word :: rest) tokens
  | comment
      {opening closing : Word}
      {middle rest : List Word}
      {tokens : List Token}
      (hclass : WordClass.of opening.text = .openComment)
      (hopen : opening.text.length < 4 ∨ closesComment opening.text = false)
      (hmiddle : ∀ word ∈ middle, closesComment word.text = false)
      (hclosing : closesComment closing.text = true)
      (hrest : Scans file rest tokens) :
      Scans file (opening :: middle ++ closing :: rest) tokens

variable {file : String}

/-- An open string goes on to the first word that ends with a quote. -/
theorem scanWords_string
    {opening : Word}
    {parts : List (List Char)}
    {words : List Word}
    {tokens : List Token}
    (h : scanWords file (.string opening parts) words = .ok tokens) :
    ∃ middle closing rest tokens',
      words = middle ++ closing :: rest ∧
        (∀ word ∈ middle, closesString word.text = false) ∧
        closesString closing.text = true ∧
        scanWords file .plain rest = .ok tokens' ∧
        tokens = ofString file opening closing
          (((middle ++ [closing]).map Word.text).reverse ++ parts) :: tokens' := by
  induction words generalizing parts with
  | nil =>
      cases h
  | cons word words ih =>
      rw [scanWords] at h
      split at h
      · next hcloses =>
          cases hrest : scanWords file .plain words with
          | error fault =>
              rw [hrest] at h
              cases h
          | ok tokens' =>
              rw [hrest] at h
              cases h
              exact ⟨[], word, words, tokens', rfl, by simp, hcloses, hrest, by simp⟩
      · next hopen =>
          obtain ⟨middle, closing, rest, tokens', rfl, hmiddle, hcloses, hrest, rfl⟩ := ih h
          refine ⟨word :: middle, closing, rest, tokens', rfl, ?_, hcloses, hrest, by simp⟩
          simpa [hopen] using hmiddle

/-- An open comment goes on to the first word that ends with its sign. -/
theorem scanWords_comment
    {opening : Word}
    {words : List Word}
    {tokens : List Token}
    (h : scanWords file (.comment opening) words = .ok tokens) :
    ∃ middle closing rest,
      words = middle ++ closing :: rest ∧
        (∀ word ∈ middle, closesComment word.text = false) ∧
        closesComment closing.text = true ∧
        scanWords file .plain rest = .ok tokens := by
  induction words with
  | nil =>
      cases h
  | cons word words ih =>
      rw [scanWords] at h
      split at h
      · next hcloses =>
          exact ⟨[], word, words, rfl, by simp, hcloses, h⟩
      · next hopen =>
          obtain ⟨middle, closing, rest, rfl, hmiddle, hcloses, hrest⟩ := ih h
          refine ⟨word :: middle, closing, rest, rfl, ?_, hcloses, hrest⟩
          simpa [hopen] using hmiddle

/-- What a program is read to is found in its stretches. -/
theorem scans_of_scanWords
    {words : List Word}
    {tokens : List Token}
    (h : scanWords file .plain words = .ok tokens) :
    Scans file words tokens := by
  -- A string or a comment takes several words at once, so the induction is on their number.
  induction hlength : words.length using Nat.strongRecOn generalizing words tokens with
  | _ n ih =>
      subst hlength
      cases words with
      | nil =>
          cases h
          exact .none
      | cons word rest =>
          have hword {tokens' : List Token} {token : Token}
              (hmap : (scanWords file .plain rest).map (token :: ·) = .ok tokens') :
              ∃ tokens'', tokens' = token :: tokens'' ∧ Scans file rest tokens'' := by
            cases hrest : scanWords file .plain rest with
            | error fault =>
                rw [hrest] at hmap
                cases hmap
            | ok tokens'' =>
                rw [hrest] at hmap
                cases hmap
                exact ⟨tokens'', rfl, ih _ (by simp) hrest rfl⟩
          rw [scanWords] at h
          cases hclass : WordClass.of word.text with
          | token kind =>
              rw [hclass] at h
              obtain ⟨tokens', rfl, hrest⟩ := hword h
              exact .word hclass hrest
          | misspelt keyword =>
              rw [hclass] at h
              cases h
          | openString =>
              rw [hclass] at h
              dsimp only at h
              split at h
              · next hclosed =>
                  obtain ⟨tokens', rfl, hrest⟩ := hword h
                  exact .closedString hclass hclosed hrest
              · next hopen =>
                  obtain ⟨middle, closing, rest, tokens', rfl, hmiddle, hclosing, hrest, rfl⟩ :=
                    scanWords_string h
                  have hscans := ih rest.length (by simp; omega) hrest rfl
                  simpa using Scans.string hclass (by simpa using hopen) hmiddle hclosing hscans
          | openComment =>
              rw [hclass] at h
              dsimp only at h
              split at h
              · next hclosed =>
                  rw [Bool.and_eq_true, decide_eq_true_eq] at hclosed
                  exact .closedComment hclass hclosed.1 hclosed.2 (ih _ (by simp) h rfl)
              · next hopen =>
                  obtain ⟨middle, closing, rest, rfl, hmiddle, hclosing, hrest⟩ :=
                    scanWords_comment h
                  have hscans := ih rest.length (by simp; omega) hrest rfl
                  refine .comment hclass ?_ hmiddle hclosing hscans
                  by_cases hlength : 4 ≤ word.text.length
                  · exact .inr (by simpa [hlength] using hopen)
                  · exact .inl (by omega)
          | unrecognised =>
              rw [hclass] at h
              cases h

end Token
end CometLang
