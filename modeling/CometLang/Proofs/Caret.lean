import CometLang.Fault.Report
import CometLang.Proofs.Lines

/-!
# Where the caret stands

A report shows the line of the place that it blames, trimmed, with its number in
front, and below it a caret behind some dashes. Both lines have their bars in the same
column. The dashes are counted in bytes from the start of the line, less the plain
spaces that the line starts with. But the line is shown without any of the blanks that
it starts with, and a character is shown in one column however many bytes it takes.

So the caret stands below the character that is blamed just where the line starts with
no other blanks than plain spaces, and all that stands between these and the character
takes one byte each. Else it stands further to the right.
-/

namespace CometLang
namespace Text

/-! ## Trimmed lines -/

section

variable {α : Type} {c : α}

theorem dropWhile_append_cons
    {p : α → Bool}
    (hc : p c = false)
    (front behind : List α) :
    (front ++ c :: behind).dropWhile p = front.dropWhile p ++ c :: behind := by
  induction front with
  | nil =>
      simp [hc]
  | cons d front ih =>
      by_cases hd : p d = true
      · simp [hd, ih]
      · simp [hd]

theorem takeWhile_append_cons
    (p : α → Bool)
    (hc : p c = false)
    (front behind : List α) :
    (front ++ c :: behind).takeWhile p = front.takeWhile p := by
  induction front with
  | nil =>
      simp [hc]
  | cons d front ih =>
      by_cases hd : p d = true
      · simp [hd, ih]
      · simp [hd]

end

/-- What is left and right of a character that is not blank is trimmed on its own. -/
theorem trimBlanks_append_cons
    {c : Char}
    (hc : isBlank c = false)
    (front behind : List Char) :
    trimBlanks (front ++ c :: behind)
      = front.dropWhile isBlank ++ c :: behind.rdropWhile isBlank := by
  rw [trimBlanks, dropWhile_append_cons hc, List.reverse_append, List.reverse_cons,
    List.append_assoc, List.singleton_append, dropWhile_append_cons hc, List.reverse_append,
    List.reverse_cons, List.reverse_reverse, List.append_assoc]
  rfl

theorem newline_not_mem_trimBlanks
    {c : Char}
    (hc : isBlank c = false)
    {front behind : List Char}
    (hfront : '\n' ∉ front)
    (hbehind : '\n' ∉ behind) :
    '\n' ∉ trimBlanks (front ++ c :: behind) := by
  rw [trimBlanks_append_cons hc, List.mem_append, List.mem_cons, not_or, not_or]
  refine ⟨?_, ?_, ?_⟩
  · exact fun hmem => hfront (List.dropWhile_subset isBlank hmem)
  · rintro rfl
    cases hc
  · exact fun hmem => hbehind ((List.rdropWhile_prefix isBlank behind).subset hmem)

theorem rdropWhile_append_newline
    {newline : List Char}
    (h : newline = [] ∨ newline = ['\n'])
    (cs : List Char) :
    (cs ++ newline).rdropWhile isBlank = cs.rdropWhile isBlank := by
  rcases h with rfl | rfl
  · rw [List.append_nil]
  · exact List.rdropWhile_concat_pos isBlank cs '\n' (by decide)

/-! ## Bytes and characters -/

theorem byteLength_eq_length_iff
    (cs : List Char) :
    byteLength cs = cs.length ↔ ∀ c ∈ cs, c.utf8Size = 1 := by
  induction cs with
  | nil =>
      simp [byteLength]
  | cons c cs ih =>
      have hc : 0 < c.utf8Size := c.utf8Size_pos
      have hle := length_le_byteLength cs
      rw [List.length_cons, byteLength, List.forall_mem_cons, ← ih]
      omega

/-- Among the blanks at the start there are at most as many plain spaces, and no other. -/
theorem length_spaces
    (cs : List Char) :
    (cs.takeWhile (· = ' ')).length ≤ (cs.takeWhile isBlank).length ∧
      ((cs.takeWhile (· = ' ')).length = (cs.takeWhile isBlank).length ↔
        ∀ b ∈ cs.takeWhile isBlank, b = ' ') := by
  induction cs with
  | nil =>
      simp
  | cons c cs ih =>
      by_cases hspace : c = ' '
      · subst hspace
        have hblank : isBlank ' ' = true := by decide
        simpa [List.takeWhile_cons, hblank] using ih
      · by_cases hblank : isBlank c = true
        · simp [hspace, hblank]
        · simp [hspace, hblank]

/--
The bytes of a text, less the plain spaces at its start, are as many as its characters
behind the blanks at its start just where those blanks are plain spaces and each of
these characters takes one byte.
-/
theorem byteLength_sub_spaces_eq_iff
    (cs : List Char) :
    byteLength cs - (cs.takeWhile (· = ' ')).length = (cs.dropWhile isBlank).length ↔
      (∀ b ∈ cs.takeWhile isBlank, b = ' ') ∧
        ∀ b ∈ cs.dropWhile isBlank, b.utf8Size = 1 := by
  obtain ⟨hle, hall⟩ := length_spaces cs
  have hsplit : byteLength cs
      = byteLength (cs.takeWhile isBlank) + byteLength (cs.dropWhile isBlank) := by
    rw [← byteLength_append, List.takeWhile_append_dropWhile]
  have hindent := length_le_byteLength (cs.takeWhile isBlank)
  have hshown := length_le_byteLength (cs.dropWhile isBlank)
  rw [← byteLength_eq_length_iff, ← hall]
  constructor
  · intro hdashes
    omega
  · rintro ⟨hspaces, hbytes⟩
    have hplain : byteLength (cs.takeWhile isBlank) = (cs.takeWhile isBlank).length := by
      rw [byteLength_eq_length_iff]
      intro b hb
      rw [hall.1 hspaces b hb]
      rfl
    omega

end Text

namespace Fault

open Text

/-- The number of the line on which a place stands, as it is shown. -/
def shownNumber (before : List Char) : List Char :=
  (toString (before.count '\n' + 1)).toList

theorem newline_not_mem_toString
    (n : Nat) :
    '\n' ∉ (toString n).toList := by
  intro hmem
  have hdigits : '\n' ∈ Nat.toDigits 10 n := by
    simpa [Nat.repr_eq_ofList_toDigits] using hmem
  have hdigit := Nat.isDigit_of_mem_toDigits (by decide) (by decide) hdigits
  cases hdigit

/-- The last lines of a report are the line of the place and the line of the caret. -/
theorem lines_report
    {fault : Fault}
    {content : String}
    {line : Line}
    (hline : Line.at? content fault.position.offset = some line)
    (hshown : '\n' ∉ trimBlanks line.text) :
    ∃ head,
      lines (fault.report content).toList
        = head ++
          [(toString line.number).toList ++ " | ".toList ++ trimBlanks line.text ++ ['\n'],
            List.replicate (toString line.number).length ' ' ++ " | ".toList
              ++ List.replicate (caretIndent line) '-' ++ ['^', '\n']] := by
  have hfirst : '\n' ∉ (toString line.number).toList ++ " | ".toList ++ trimBlanks line.text := by
    simp only [List.mem_append, not_or]
    exact ⟨⟨newline_not_mem_toString line.number, by decide⟩, hshown⟩
  have hsecond : '\n' ∉ List.replicate (toString line.number).length ' ' ++ " | ".toList
      ++ List.replicate (caretIndent line) '-' ++ ['^'] := by
    simp [List.mem_replicate]
  obtain ⟨front, hreport⟩ :
      ∃ front, (fault.report content).toList
        = front ++ '\n' ::
          (((toString line.number).toList ++ " | ".toList ++ trimBlanks line.text) ++ '\n' ::
            ((List.replicate (toString line.number).length ' ' ++ " | ".toList
              ++ List.replicate (caretIndent line) '-' ++ ['^']) ++ ['\n'])) := by
    refine ⟨(fault.headline ++ "-> " ++ fault.position.file ++ "\n"
      ++ bar (toString line.number).length).toList, ?_⟩
    rw [report, hline]
    simp [excerpt, bar, fill, List.replicate_succ']
  obtain ⟨head, hlines⟩ :=
    exists_lines_eq_append_pair hfirst (by simp) hsecond (by simp) front
  refine ⟨head, ?_⟩
  rw [hreport, hlines, List.append_assoc _ ['^'] ['\n']]
  rfl

/--
Let a fault be blamed on a character of the content that is not blank. Then the last
lines of its report are the number of its line and the trimmed line, behind a bar, and
below it as many dashes as there are bytes before the character on its line, less the
plain spaces at the start of the line, and the caret. So the caret stands below the
character, which the trimmed line has where it shows it, if and only if the line starts
with no blanks but plain spaces and the characters that it shows before this one take
one byte each.
-/
theorem caret_below_character_iff
    (fault : Fault)
    (content : String)
    (before behind : List Char)
    (c : Char)
    (hcontent : content.toList = before ++ c :: behind)
    (hoffset : fault.position.offset = byteLength before)
    (hc : isBlank c = false) :
    ∃ head post dashes,
      trimBlanks (lineStart before ++ c :: lineEnd behind)
          = (lineStart before).dropWhile isBlank ++ c :: post ∧
        lines (fault.report content).toList
          = head ++
            [shownNumber before ++ " | ".toList
                ++ trimBlanks (lineStart before ++ c :: lineEnd behind) ++ ['\n'],
              List.replicate (shownNumber before).length ' ' ++ " | ".toList
                ++ List.replicate dashes '-' ++ ['^', '\n']] ∧
        dashes + ((lineStart before).takeWhile (· = ' ')).length
          = byteLength (lineStart before) ∧
        (dashes = ((lineStart before).dropWhile isBlank).length ↔
          (∀ b ∈ (lineStart before).takeWhile isBlank, b = ' ') ∧
            ∀ b ∈ (lineStart before).dropWhile isBlank, b.utf8Size = 1) := by
  have hnewline : c ≠ '\n' := by
    rintro rfl
    cases hc
  have hspace : decide (c = ' ') = false := by
    rw [decide_eq_false_iff_not]
    rintro rfl
    cases hc
  -- The newline of the line is a blank: it is neither shown nor counted.
  obtain ⟨newline, hends, hline⟩ := Line.at?_of_append hcontent hnewline
  rw [← hoffset] at hline
  have htext : lineStart before ++ [c] ++ lineEnd behind ++ newline
      = lineStart before ++ c :: (lineEnd behind ++ newline) := by
    simp
  have htrim : trimBlanks (lineStart before ++ [c] ++ lineEnd behind ++ newline)
      = trimBlanks (lineStart before ++ c :: lineEnd behind) := by
    rw [htext, trimBlanks_append_cons hc, rdropWhile_append_newline hends,
      ← trimBlanks_append_cons hc]
  have hshown := newline_not_mem_trimBlanks hc (newline_not_mem_lineStart before)
    (newline_not_mem_lineEnd behind)
  obtain ⟨head, hlines⟩ := lines_report hline (htrim ▸ hshown)
  have hspaces : (lineStart before ++ [c] ++ lineEnd behind ++ newline).takeWhile (· = ' ')
      = (lineStart before).takeWhile (· = ' ') := by
    rw [htext]
    exact takeWhile_append_cons (· = ' ') hspace _ _
  have hle : ((lineStart before).takeWhile (· = ' ')).length ≤ byteLength (lineStart before) :=
    Nat.le_trans (List.takeWhile_prefix _).length_le (length_le_byteLength _)
  rw [htrim, caretIndent, hspaces] at hlines
  refine ⟨head, _, _, trimBlanks_append_cons hc _ _, hlines, Nat.sub_add_cancel hle, ?_⟩
  exact byteLength_sub_spaces_eq_iff (lineStart before)

/-- The fault that `y` is not declared, blamed on the given byte. -/
def undeclaredAt (offset : Nat) : Fault :=
  ⟨.undeclared "y", ⟨offset, "main.cosmo"⟩⟩

/-- Behind two plain spaces the caret stands below the character. -/
theorem caret_below_character_behind_spaces :
    ∃ head,
      lines ((undeclaredAt 6).report "  x = y ;\n").toList
        = head ++ ["1 | x = y ;\n".toList, "  | ----^\n".toList] := by
  obtain ⟨head, post, dashes, -, hlines, hdashes, -⟩ :=
    caret_below_character_iff (undeclaredAt 6) "  x = y ;\n" "  x = ".toList " ;\n".toList 'y'
      (by decide) (by decide) (by decide)
  obtain rfl : dashes = 4 := by
    have hstart : ((lineStart "  x = ".toList).takeWhile (· = ' ')).length = 2 := by
      decide
    have hbytes : byteLength (lineStart "  x = ".toList) = 6 := by
      decide
    omega
  exact ⟨head, hlines.trans (congrArg (head ++ ·) (by decide +kernel))⟩

/-- Behind a tab the caret stands one column too far to the right, however short the lines are. -/
theorem caret_not_always_below_character :
    ¬ ∀ (fault : Fault) (content : String) (before behind : List Char) (c : Char),
      (∀ line ∈ lines content.toList, byteLength line < 65535) →
        content.toList = before ++ c :: behind → fault.position.offset = byteLength before →
          isBlank c = false →
            ∃ head,
              lines (fault.report content).toList
                = head ++
                  [shownNumber before ++ " | ".toList
                      ++ trimBlanks (lineStart before ++ c :: lineEnd behind) ++ ['\n'],
                    List.replicate (shownNumber before).length ' ' ++ " | ".toList
                      ++ List.replicate ((lineStart before).dropWhile isBlank).length '-'
                      ++ ['^', '\n']] := by
  intro hall
  obtain ⟨head, hlines⟩ := hall (undeclaredAt 5) "\tx = y ;\n" "\tx = ".toList " ;\n".toList 'y'
    (by decide) (by decide) (by decide) (by decide)
  have hlast := congrArg List.getLast? hlines
  have hactual : (lines ((undeclaredAt 5).report "\tx = y ;\n").toList).getLast?
      = some "  | -----^\n".toList := by
    decide +kernel
  rw [hactual, List.getLast?_append, List.getLast?_cons_cons, List.getLast?_singleton,
    Option.some_or] at hlast
  exact absurd (Option.some.inj hlast) (by decide +kernel)

end Fault
end CometLang
