import CometLang.Proofs.Stretches

/-!
# Printed programs

The tokens of a program are printed as their values, with single spaces between
them. This drops the comments and all other blanks, also those between the words
of a string, and nothing else: the words that are left are those of the tokens.
Each token is read back from its words. In particular no word that follows a
string or a comment is taken for a part of it, and a string which holds the sign
of a comment, a keyword or a lone quote is still closed by the same word.
-/

namespace CometLang
namespace Token

open Text

/-- The values of the tokens with single spaces between them. -/
def printed (tokens : List Token) : String :=
  " ".intercalate (tokens.map value)

variable {file : String}

/-- The words of tokens are read again to tokens of the same kinds and values. -/
theorem exists_scanWords_of_stretches
    (file' : String)
    {parts : List (List Word)}
    {tokens : List Token}
    (h : List.Forall₂ (Stretch file) parts tokens)
    {words : List Word}
    (hwords : words.map Word.text = parts.flatten.map Word.text) :
    ∃ tokens', scanWords file' .plain words = .ok tokens' ∧
      tokens'.map kind = tokens.map kind ∧ tokens'.map value = tokens.map value := by
  induction h generalizing words with
  | nil =>
      obtain rfl := List.map_eq_nil_iff.1 hwords
      exact ⟨[], rfl, rfl, rfl⟩
  | @cons part t parts tokens ht _ ih =>
      rw [List.flatten_cons, List.map_append] at hwords
      obtain ⟨front, back, rfl, hfront, hback⟩ := List.map_eq_append_iff.1 hwords
      obtain ⟨t', ht', hkind, hvalue⟩ := ht.exists_of_texts file' hfront
      obtain ⟨tokens', hread, hkinds, hvalues⟩ := ih hback
      refine ⟨t' :: tokens', ?_, ?_, ?_⟩
      · rw [ht'.scanWords_append, hread]
        rfl
      · rw [List.map_cons, List.map_cons, hkind, hkinds]
      · rw [List.map_cons, List.map_cons, hvalue, hvalues]

/-- The values of tokens are their words, joined by single spaces. -/
theorem map_joinWords_of_stretches
    {parts : List (List Word)}
    {tokens : List Token}
    (h : List.Forall₂ (Stretch file) parts tokens) :
    (parts.map (List.map Word.text)).map joinWords
      = (tokens.map value).map String.toList := by
  induction h with
  | nil =>
      rfl
  | cons ht _ ih =>
      simp only [List.map_cons, ih, ht.toList_value]

/-- The words of the printed tokens are those of the tokens. -/
theorem map_text_split_printed
    {parts : List (List Word)}
    {tokens : List Token}
    (h : List.Forall₂ (Stretch file) parts tokens)
    (hwords : ∀ word ∈ parts.flatten, IsWord word.text) :
    (Word.split (printed tokens)).map Word.text = parts.flatten.map Word.text := by
  have hne : ∀ part ∈ parts, part ≠ [] :=
    ((List.forall₂_and_left parts tokens).1 (h.imp fun _ _ ht => ⟨ht.ne_nil, ht⟩)).1
  have hparts : ∀ group ∈ parts.map (List.map Word.text),
      group ≠ [] ∧ ∀ text ∈ group, IsWord text := by
    rw [List.forall_mem_map]
    intro part hpart
    constructor
    · simpa using hne part hpart
    · rw [List.forall_mem_map]
      intro word hword
      exact hwords word (List.mem_flatten.2 ⟨part, hpart, hword⟩)
  rw [printed, map_text_split_intercalate (map_joinWords_of_stretches h) hparts, List.map_flatten]

/--
The printed tokens of a program are read to tokens of the same kinds and the same
values, in the same order; and these are printed in the same way again.
-/
theorem scan_printed
    (source file : String)
    (tokens : List Token)
    (h : scan source file = .ok tokens)
    (file' : String) :
    ∃ tokens',
      scan (printed tokens) file' = .ok tokens' ∧
        tokens'.map kind = tokens.map kind ∧
        tokens'.map value = tokens.map value ∧
        printed tokens' = printed tokens := by
  obtain ⟨parts, hparts, hwords⟩ := (scans_of_scanWords h).tiles.exists_parts
  have hword : ∀ word ∈ parts.flatten, IsWord word.text := fun word hmem =>
    (Word.of_mem_splitFrom (hwords.subset hmem)).2
  obtain ⟨tokens', hread, hkinds, hvalues⟩ :=
    exists_scanWords_of_stretches file' hparts (map_text_split_printed hparts hword)
  exact ⟨tokens', hread, hkinds, hvalues, by rw [printed, printed, hvalues]⟩

/-- The tokens of `x  /* = */ = "  /*  ;" reception`, in a file `a`. -/
def spread : List Token :=
  [⟨.identifier, "x", ⟨⟨0, "a"⟩, ⟨1, "a"⟩⟩⟩,
   ⟨.assignment, "=", ⟨⟨11, "a"⟩, ⟨12, "a"⟩⟩⟩,
   ⟨.string, "\" /* ;\"", ⟨⟨13, "a"⟩, ⟨22, "a"⟩⟩⟩,
   ⟨.reception, "reception", ⟨⟨23, "a"⟩, ⟨32, "a"⟩⟩⟩]

/--
A string that opens with a lone quote and holds the sign of a comment, behind a
comment that holds an operator: what is printed is read back to the same kinds
and values.
-/
theorem scan_printed_spread :
    scan "x  /* = */ = \"  /*  ;\" reception" "a" = .ok spread ∧
      printed spread = "x = \" /* ;\" reception" ∧
      ∃ tokens',
        scan "x = \" /* ;\" reception" "b" = .ok tokens' ∧
          tokens'.map kind = [.identifier, .assignment, .string, .reception] ∧
          tokens'.map value = ["x", "=", "\" /* ;\"", "reception"] ∧
          printed tokens' = "x = \" /* ;\" reception" := by
  have hscan : scan "x  /* = */ = \"  /*  ;\" reception" "a" = .ok spread := by
    decide +kernel
  have hprinted : printed spread = "x = \" /* ;\" reception" := by
    decide +kernel
  obtain ⟨tokens', hread, hkinds, hvalues, hagain⟩ := scan_printed _ _ _ hscan "b"
  rw [hprinted] at hread hagain
  exact ⟨hscan, hprinted, tokens', hread, hkinds, hvalues, hagain⟩

end Token
end CometLang
