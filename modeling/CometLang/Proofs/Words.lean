import CometLang.Text.Word

/-!
# Words and blanks

A blank ends the word before it and is part of none: the words of two texts with
a blank between them are the words of the first and the words of the second. All
else about words follows from this. In particular words that are joined by
single spaces are read back as they were.
-/

namespace CometLang
namespace Text

/-- At least one character, and no blanks. -/
def IsWord (text : List Char) : Prop :=
  text ≠ [] ∧ ∀ c ∈ text, isBlank c = false

namespace Word

/-- A glued character starts a word of its own or extends one; other words are left. -/
theorem mem_glue
    {offset : Nat}
    {c : Char}
    {ws : List Word}
    {w : Word}
    (h : w ∈ glue offset c ws) :
    (w.offset = offset ∧ (w.text = [c] ∨ ∃ v ∈ ws, w.text = c :: v.text)) ∨ w ∈ ws := by
  cases ws with
  | nil =>
      rw [glue, List.mem_singleton] at h
      subst h
      exact .inl ⟨rfl, .inl rfl⟩
  | cons v ws =>
      rw [glue] at h
      split at h
      · rcases List.mem_cons.1 h with rfl | hrest
        · exact .inl ⟨rfl, .inr ⟨v, by simp, rfl⟩⟩
        · exact .inr (List.mem_cons_of_mem _ hrest)
      · rcases List.mem_cons.1 h with rfl | hrest
        · exact .inl ⟨rfl, .inl rfl⟩
        · exact .inr hrest

/-- A word does not start before the text, has a character and no blanks. -/
theorem of_mem_splitFrom
    {offset : Nat}
    {cs : List Char}
    {w : Word}
    (h : w ∈ splitFrom offset cs) :
    offset ≤ w.offset ∧ IsWord w.text := by
  induction cs generalizing offset w with
  | nil =>
      simp [splitFrom] at h
  | cons c cs ih =>
      rw [splitFrom] at h
      split at h
      · obtain ⟨hle, hword⟩ := ih h
        exact ⟨by omega, hword⟩
      · next hblank =>
          rcases mem_glue h with ⟨hoffset, htext | ⟨v, hv, htext⟩⟩ | hrest
          · rw [htext]
            exact ⟨by omega, by simp, by simpa using hblank⟩
          · rw [htext]
            refine ⟨by omega, by simp, ?_⟩
            simpa [hblank] using (ih hv).2.2
          · obtain ⟨hle, hword⟩ := ih hrest
            exact ⟨by omega, hword⟩

/-- Words further back do not matter to a character unless there are no others. -/
theorem glue_append
    (offset : Nat)
    (c : Char)
    (us vs : List Word)
    (h : us = [] → ∀ v ∈ vs, v.offset ≠ offset + c.utf8Size) :
    glue offset c (us ++ vs) = glue offset c us ++ vs := by
  cases us with
  | nil =>
      cases vs with
      | nil =>
          rfl
      | cons v vs =>
          exact if_neg (h rfl v (by simp))
  | cons u us =>
      rw [List.cons_append, glue, glue]
      split
      · rfl
      · rfl

/-- Words end at a blank. -/
theorem splitFrom_append_blank
    (offset : Nat)
    (cs : List Char)
    {blank : Char}
    (h : isBlank blank = true)
    (ds : List Char) :
    splitFrom offset (cs ++ blank :: ds)
      = splitFrom offset cs
        ++ splitFrom (offset + byteLength (cs ++ [blank])) ds := by
  induction cs generalizing offset with
  | nil =>
      simp [splitFrom, h, byteLength]
  | cons c cs ih =>
      have hlength : offset + byteLength (c :: cs ++ [blank])
          = offset + c.utf8Size + byteLength (cs ++ [blank]) := by
        simp [byteLength, Nat.add_assoc]
      rw [List.cons_append, splitFrom, splitFrom, ih, hlength]
      split
      · rfl
      · -- Behind the blank no word starts right at the end of the character.
        apply glue_append
        intro _ v hv hoffset
        have hpos : 0 < byteLength (cs ++ [blank]) := byteLength_pos (by simp)
        have hle := (of_mem_splitFrom hv).1
        omega

/-- Words end where the text goes on with a blank. -/
theorem splitFrom_append
    (offset : Nat)
    (cs : List Char)
    {ds : List Char}
    (h : ∀ c ∈ ds.head?, isBlank c = true) :
    splitFrom offset (cs ++ ds)
      = splitFrom offset cs ++ splitFrom (offset + byteLength cs) ds := by
  cases ds with
  | nil =>
      simp [splitFrom]
  | cons blank ds =>
      have hblank : isBlank blank = true := h blank rfl
      rw [splitFrom_append_blank offset cs hblank, splitFrom, if_pos hblank]
      simp [byteLength, Nat.add_assoc]

/-- What has a character and no blanks is one word. -/
theorem splitFrom_of_isWord
    (offset : Nat)
    {text : List Char}
    (h : IsWord text) :
    splitFrom offset text = [⟨offset, text⟩] := by
  induction text generalizing offset with
  | nil =>
      exact absurd rfl h.1
  | cons c cs ih =>
      have hc : isBlank c = false := h.2 c (by simp)
      rw [splitFrom, if_neg (by simp [hc])]
      cases cs with
      | nil =>
          rfl
      | cons d ds =>
          have hrest : IsWord (d :: ds) := ⟨by simp, fun e he => h.2 e (by simp [he])⟩
          rw [ih _ hrest, glue, if_pos rfl]

end Word

/-! ## Joined words -/

theorem joinWords_cons_cons
    (text next : List Char)
    (texts : List (List Char)) :
    joinWords (text :: next :: texts) = text ++ ' ' :: joinWords (next :: texts) := by
  simp [joinWords]

/-- Joined words are read back. -/
theorem map_text_splitFrom_joinWords
    (offset : Nat)
    {texts : List (List Char)}
    (h : ∀ text ∈ texts, IsWord text) :
    (Word.splitFrom offset (joinWords texts)).map Word.text = texts := by
  induction texts generalizing offset with
  | nil =>
      rfl
  | cons text texts ih =>
      have htext := Word.splitFrom_of_isWord offset (h text (by simp))
      cases texts with
      | nil =>
          simpa [joinWords] using congrArg (List.map Word.text) htext
      | cons next texts =>
          rw [joinWords_cons_cons, Word.splitFrom_append_blank offset text (by decide), htext]
          rw [List.map_append, ih _ fun text' htext' => h text' (by simp [htext'])]
          rfl

/-- Two groups of words are joined by one more space. -/
theorem joinWords_append
    {texts texts' : List (List Char)}
    (h : texts ≠ [])
    (h' : texts' ≠ []) :
    joinWords (texts ++ texts') = joinWords texts ++ ' ' :: joinWords texts' := by
  induction texts with
  | nil =>
      exact absurd rfl h
  | cons text texts ih =>
      cases texts with
      | nil =>
          obtain ⟨next, rest, rfl⟩ := List.exists_cons_of_ne_nil h'
          rw [List.singleton_append, joinWords_cons_cons]
          simp [joinWords]
      | cons next texts =>
          have hrest := ih (by simp)
          rw [List.cons_append] at hrest
          rw [List.cons_append, List.cons_append, joinWords_cons_cons, joinWords_cons_cons, hrest,
            List.append_assoc, List.cons_append]

/-- Joining joined words is joining all of them. -/
theorem joinWords_map_joinWords
    {groups : List (List (List Char))}
    (h : ∀ group ∈ groups, group ≠ []) :
    joinWords (groups.map joinWords) = joinWords groups.flatten := by
  induction groups with
  | nil =>
      rfl
  | cons group groups ih =>
      have hgroup : group ≠ [] := h group (by simp)
      have hgroups : ∀ other ∈ groups, other ≠ [] := fun other hother => h other (by simp [hother])
      cases groups with
      | nil =>
          simp [joinWords]
      | cons next groups =>
          have hnext : next ++ groups.flatten ≠ [] := by
            simp [hgroups next (by simp)]
          have hrest := ih hgroups
          rw [List.map_cons, List.flatten_cons] at hrest
          rw [List.map_cons, List.map_cons, joinWords_cons_cons, hrest, List.flatten_cons,
            List.flatten_cons, joinWords_append hgroup hnext]

/-- Texts of several words each, joined by single spaces, are read back word by word. -/
theorem map_text_split_intercalate
    {texts : List String}
    {groups : List (List (List Char))}
    (htexts : groups.map joinWords = texts.map String.toList)
    (hgroups : ∀ group ∈ groups, group ≠ [] ∧ ∀ text ∈ group, IsWord text) :
    (Word.split (" ".intercalate texts)).map Word.text = groups.flatten := by
  have hline : (" ".intercalate texts).toList = joinWords groups.flatten := by
    rw [← joinWords_map_joinWords fun group hgroup => (hgroups group hgroup).1, htexts,
      String.toList_intercalate]
    rfl
  rw [Word.split, hline]
  apply map_text_splitFrom_joinWords
  intro text htext
  obtain ⟨group, hgroup, hmem⟩ := List.mem_flatten.1 htext
  exact (hgroups group hgroup).2 text hmem

end Text
end CometLang
