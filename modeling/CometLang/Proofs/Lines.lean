import Mathlib.Data.List.DropRight
import CometLang.Text.Line

/-!
# Lines of a text and places in them

Newlines cut a text into its lines, and this one fact says all about them: the lines
of a text that ends with a newline and of what is behind it are the lines of both.
So the line of a character that is no newline starts right behind the last newline
before it, and goes on to the first newline behind it.

Looking up an offset is exact. It fails behind the last byte and nowhere else; what it
finds is the one line that holds this byte, with its number and the place in it.
-/

namespace CometLang
namespace Text

/-- The text holds whole lines only. -/
def EndsLine (cs : List Char) : Prop :=
  cs = [] ∨ ∃ front, cs = front ++ ['\n']

theorem lines_ne_nil
    {cs : List Char}
    (h : cs ≠ []) :
    lines cs ≠ [] := by
  intro hlines
  have hflatten := flatten_lines cs
  rw [hlines] at hflatten
  exact h hflatten.symm

theorem lines_newline_cons
    (cs : List Char) :
    lines ('\n' :: cs) = ['\n'] :: lines cs :=
  if_pos rfl

theorem lines_cons_of_ne
    {c : Char}
    {cs line : List Char}
    {rest : List (List Char)}
    (hc : c ≠ '\n')
    (h : lines cs = line :: rest) :
    lines (c :: cs) = (c :: line) :: rest := by
  rw [lines, if_neg hc, h]

/-- A newline ends a line. -/
theorem lines_append_newline
    (as bs : List Char) :
    lines (as ++ '\n' :: bs) = lines (as ++ ['\n']) ++ lines bs := by
  induction as with
  | nil =>
      rw [List.nil_append, List.nil_append, lines_newline_cons, lines_newline_cons]
      rfl
  | cons c as ih =>
      by_cases hc : c = '\n'
      · subst hc
        rw [List.cons_append, List.cons_append, lines_newline_cons, lines_newline_cons, ih]
        rfl
      · obtain ⟨line, rest, hlines⟩ :=
          List.exists_cons_of_ne_nil (lines_ne_nil (show as ++ ['\n'] ≠ [] by simp))
        rw [hlines] at ih
        rw [List.cons_append, List.cons_append, lines_cons_of_ne hc hlines, lines_cons_of_ne hc ih]
        rfl

/-- Whole lines and what is behind them have their lines one after the other. -/
theorem lines_append
    {as : List Char}
    (h : EndsLine as)
    (bs : List Char) :
    lines (as ++ bs) = lines as ++ lines bs := by
  rcases h with rfl | ⟨front, rfl⟩
  · rfl
  · rw [List.append_assoc, List.singleton_append]
    exact lines_append_newline front bs

/-- What holds no newline is one line, with the newline behind it if there is one. -/
theorem lines_of_not_mem
    {line : List Char}
    (hline : '\n' ∉ line)
    (hne : line ≠ [])
    (rest : List Char) :
    lines line = [line] ∧ lines (line ++ '\n' :: rest) = (line ++ ['\n']) :: lines rest := by
  induction line with
  | nil =>
      exact absurd rfl hne
  | cons c line ih =>
      rw [List.mem_cons, not_or] at hline
      obtain ⟨hc, hline⟩ := hline
      have hc' : c ≠ '\n' := fun heq => hc heq.symm
      cases line with
      | nil =>
          constructor
          · rw [lines, if_neg hc']
            rfl
          · exact lines_cons_of_ne hc' (lines_newline_cons rest)
      | cons d line =>
          obtain ⟨hlast, hfirst⟩ := ih hline (by simp)
          exact ⟨lines_cons_of_ne hc' hlast, lines_cons_of_ne hc' hfirst⟩

/-- The last two lines of a text. -/
theorem exists_lines_eq_append_pair
    {first second : List Char}
    (hfirst : '\n' ∉ first)
    (hfirst' : first ≠ [])
    (hsecond : '\n' ∉ second)
    (hsecond' : second ≠ [])
    (front : List Char) :
    ∃ head,
      lines (front ++ '\n' :: (first ++ '\n' :: (second ++ ['\n'])))
        = head ++ [first ++ ['\n'], second ++ ['\n']] := by
  refine ⟨lines (front ++ ['\n']), ?_⟩
  rw [lines_append_newline, (lines_of_not_mem hfirst hfirst' _).2,
    (lines_of_not_mem hsecond hsecond' []).2]
  rfl

/-- Whole lines are as many as there are newlines. -/
theorem length_lines
    {cs : List Char}
    (h : EndsLine cs) :
    (lines cs).length = cs.count '\n' := by
  have hfront (front : List Char) :
      (lines (front ++ ['\n'])).length = (front ++ ['\n']).count '\n' := by
    induction front with
    | nil =>
        rfl
    | cons c front ih =>
        by_cases hc : c = '\n'
        · subst hc
          rw [List.cons_append, lines_newline_cons, List.length_cons, ih, List.count_cons_self]
        · obtain ⟨line, rest, hlines⟩ :=
            List.exists_cons_of_ne_nil (lines_ne_nil (show front ++ ['\n'] ≠ [] by simp))
          rw [List.cons_append, lines_cons_of_ne hc hlines, List.count_cons_of_ne hc, ← ih, hlines]
          rfl
  rcases h with rfl | ⟨front, rfl⟩
  · rfl
  · exact hfront front

/-! ## Places -/

namespace Line

/-- By induction on the lines in front: they are passed, and their bytes with them. -/
theorem locate_append
    (number : Nat)
    {column : Nat}
    (front : List (List Char))
    {line : List Char}
    (rest : List (List Char))
    (h : column < byteLength line) :
    locate number (byteLength front.flatten + column) (front ++ line :: rest)
      = some ⟨number + front.length, line, column⟩ := by
  induction front generalizing number with
  | nil =>
      rw [List.flatten_nil, byteLength, Nat.zero_add, List.nil_append, locate, if_pos h]
      rfl
  | cons first front ih =>
      have hpassed : byteLength (first :: front).flatten + column - byteLength first
          = byteLength front.flatten + column := by
        rw [List.flatten_cons, byteLength_append]
        omega
      have hbehind : ¬ byteLength (first :: front).flatten + column < byteLength first := by
        rw [List.flatten_cons, byteLength_append]
        omega
      rw [List.cons_append, locate, if_neg hbehind, hpassed, ih (number + 1), List.length_cons,
        Nat.add_assoc, Nat.add_comm 1]

end Line

/-- What stands before a place on its line. -/
def lineStart (before : List Char) : List Char :=
  before.rtakeWhile (· != '\n')

/-- What stands behind a place on its line, without the newline. -/
def lineEnd (behind : List Char) : List Char :=
  behind.takeWhile (· != '\n')

theorem newline_not_mem_lineStart
    (before : List Char) :
    '\n' ∉ lineStart before := by
  intro hmem
  have hne := List.mem_rtakeWhile_imp hmem
  cases hne

theorem newline_not_mem_lineEnd
    (behind : List Char) :
    '\n' ∉ lineEnd behind := by
  intro hmem
  have hne := List.mem_takeWhile_imp hmem
  cases hne

/-- Before the line of a place there are whole lines. -/
theorem endsLine_before
    (before : List Char) :
    EndsLine (before.rdropWhile (· != '\n')) := by
  by_cases hnil : before.rdropWhile (· != '\n') = []
  · exact .inl hnil
  · right
    have hlast := List.rdropWhile_last_not (· != '\n') before hnil
    rw [bne_iff_ne, not_not] at hlast
    have hsplit := List.dropLast_append_getLast hnil
    rw [hlast] at hsplit
    exact ⟨_, hsplit.symm⟩

/-- The first line behind a place goes to the first newline, and takes it in. -/
theorem exists_lines_eq_lineEnd
    {front : List Char}
    (hfront : '\n' ∉ front)
    (hne : front ≠ [])
    (behind : List Char) :
    ∃ newline rest, (newline = [] ∨ newline = ['\n']) ∧
      lines (front ++ behind) = (front ++ lineEnd behind ++ newline) :: rest := by
  have hline : '\n' ∉ front ++ lineEnd behind := by
    rw [List.mem_append, not_or]
    exact ⟨hfront, newline_not_mem_lineEnd behind⟩
  have hbehind : front ++ behind = front ++ lineEnd behind ++ behind.dropWhile (· != '\n') := by
    rw [List.append_assoc, lineEnd, List.takeWhile_append_dropWhile]
  rw [hbehind]
  cases hrest : behind.dropWhile (· != '\n') with
  | nil =>
      rw [List.append_nil, (lines_of_not_mem hline (by simp [hne]) []).1]
      exact ⟨[], [], .inl rfl, by rw [List.append_nil]⟩
  | cons d rest =>
      have hd := List.head?_dropWhile_not (· != '\n') behind
      rw [hrest, List.head?_cons] at hd
      obtain rfl : d = '\n' := by simpa using hd
      exact ⟨['\n'], lines rest, .inr rfl, (lines_of_not_mem hline (by simp [hne]) rest).2⟩

/-- The place of a character in its line, which starts and ends at newlines. -/
theorem Line.at?_of_append
    {content : String}
    {before behind : List Char}
    {c : Char}
    (hcontent : content.toList = before ++ c :: behind)
    (hc : c ≠ '\n') :
    ∃ newline, (newline = [] ∨ newline = ['\n']) ∧
      Line.at? content (byteLength before)
        = some ⟨before.count '\n' + 1,
            lineStart before ++ [c] ++ lineEnd behind ++ newline,
            byteLength (lineStart before)⟩ := by
  have hbefore : before.rdropWhile (· != '\n') ++ lineStart before = before :=
    List.rdropWhile_append_rtakeWhile
  have hends := endsLine_before before
  have hstart : '\n' ∉ lineStart before ++ [c] := by
    rw [List.mem_append, not_or, List.mem_singleton]
    exact ⟨newline_not_mem_lineStart before, fun heq => hc heq.symm⟩
  obtain ⟨newline, rest, hnewline, hlines⟩ :=
    exists_lines_eq_lineEnd hstart (by simp) behind
  refine ⟨newline, hnewline, ?_⟩
  -- The lines in front are passed, and the place is in the first line behind them.
  have hall : lines content.toList
      = lines (before.rdropWhile (· != '\n'))
        ++ (lineStart before ++ [c] ++ lineEnd behind ++ newline) :: rest := by
    rw [hcontent, ← hlines, ← lines_append hends]
    congr 1
    conv_lhs => rw [← hbefore]
    simp
  have hoffset : byteLength before
      = byteLength (lines (before.rdropWhile (· != '\n'))).flatten
        + byteLength (lineStart before) := by
    rw [flatten_lines, ← byteLength_append, hbefore]
  have hnumber : (lines (before.rdropWhile (· != '\n'))).length = before.count '\n' := by
    rw [length_lines hends]
    conv_rhs => rw [← hbefore]
    rw [List.count_append, List.count_eq_zero.2 (newline_not_mem_lineStart before), Nat.add_zero]
  have hcolumn : byteLength (lineStart before)
      < byteLength (lineStart before ++ [c] ++ lineEnd behind ++ newline) := by
    have hpos : 0 < byteLength [c] := byteLength_pos (by simp)
    simp only [byteLength_append]
    omega
  rw [Line.at?, hall, hoffset, Line.locate_append 1 _ rest hcolumn, hnumber, Nat.add_comm 1]

/-! ## Looking up -/

/-- The first line of a text is cut off behind its first newline. -/
theorem exists_first_line
    {cs line : List Char}
    {others : List (List Char)}
    (h : lines cs = line :: others) :
    ∃ rest,
      cs = line ++ rest ∧ others = lines rest ∧ '\n' ∉ line.dropLast ∧
        (rest = [] ∨ line.getLast? = some '\n') := by
  induction cs generalizing line others with
  | nil =>
      cases h
  | cons c cs ih =>
      by_cases hc : c = '\n'
      · subst hc
        rw [lines_newline_cons] at h
        obtain ⟨rfl, rfl⟩ := List.cons.inj h
        exact ⟨cs, rfl, rfl, List.not_mem_nil, .inr rfl⟩
      · cases hlines : lines cs with
        | nil =>
            rw [lines, if_neg hc, hlines] at h
            obtain ⟨rfl, rfl⟩ := List.cons.inj h
            obtain rfl : cs = [] := by
              by_contra hne
              exact lines_ne_nil hne hlines
            exact ⟨[], rfl, rfl, List.not_mem_nil, .inl rfl⟩
        | cons line' others' =>
            rw [lines_cons_of_ne hc hlines] at h
            obtain ⟨rfl, rfl⟩ := List.cons.inj h
            obtain ⟨rest, rfl, hothers, hinside, hends⟩ := ih hlines
            obtain ⟨d, ds, rfl⟩ : ∃ d ds, line' = d :: ds := by
              cases line' with
              | nil =>
                  -- The rest would have this line in front of its own lines.
                  rw [List.nil_append, hothers] at hlines
                  exact absurd (congrArg List.length hlines) (by simp)
              | cons d ds =>
                  exact ⟨d, ds, rfl⟩
            refine ⟨rest, rfl, hothers, ?_, ?_⟩
            · rw [List.dropLast_cons_of_ne_nil (List.cons_ne_nil d ds), List.mem_cons, not_or]
              exact ⟨fun heq => hc heq.symm, hinside⟩
            · rwa [List.getLast?_cons_cons]

/-- A text that has a newline at its end only is one line in front of what is behind it. -/
theorem lines_append_of_dropLast
    {line : List Char}
    (hne : line ≠ [])
    (hinside : '\n' ∉ line.dropLast)
    {rest : List Char}
    (hends : rest = [] ∨ line.getLast? = some '\n') :
    lines (line ++ rest) = line :: lines rest := by
  have hsplit := List.dropLast_append_getLast hne
  by_cases hlast : line.getLast hne = '\n'
  · rw [hlast] at hsplit
    rw [← hsplit, List.append_assoc, List.singleton_append]
    by_cases hfront : line.dropLast = []
    · rw [hfront]
      exact lines_newline_cons rest
    · exact (lines_of_not_mem hinside hfront rest).2
  · obtain rfl : rest = [] := by
      refine hends.resolve_right fun hnewline => hlast ?_
      rw [List.getLast?_eq_some_getLast hne] at hnewline
      exact Option.some.inj hnewline
    have hline : '\n' ∉ line := by
      rw [← hsplit, List.mem_append, not_or, List.mem_singleton]
      exact ⟨hinside, fun heq => hlast heq.symm⟩
    rw [List.append_nil, (lines_of_not_mem hline hne []).1]
    rfl

namespace Line

/-- Nothing is found behind the last byte, and something before it. -/
theorem locate_eq_none_iff
    (number offset : Nat)
    (pieces : List (List Char)) :
    locate number offset pieces = none ↔ byteLength pieces.flatten ≤ offset := by
  induction pieces generalizing number offset with
  | nil =>
      simp [locate, byteLength]
  | cons piece pieces ih =>
      rw [locate, List.flatten_cons, byteLength_append]
      split
      · next hlt =>
          simp only [reduceCtorEq, false_iff]
          omega
      · next hge =>
          rw [ih]
          omega

/--
The offset falls into the line, which stands between whole lines and the rest of the
content. It has a newline at its end only, and one unless the content ends there. Its
number counts the newlines in front, starting with `number`.
-/
structure Holds
    (line : Line)
    (content : List Char)
    (number offset : Nat)
    (before behind : List Char) : Prop where
  split : content = before ++ line.text ++ behind
  place : byteLength before + line.column = offset
  inLine : line.column < byteLength line.text
  wholeLines : EndsLine before
  inside : '\n' ∉ line.text.dropLast
  ending : behind = [] ∨ line.text.getLast? = some '\n'
  numbered : line.number = number + before.count '\n'

/-- Walking the lines of a text finds the line that the offset falls into, and no other. -/
theorem locate_lines_eq_some_iff
    (content : List Char)
    (number offset : Nat)
    (line : Line) :
    locate number offset (lines content) = some line ↔
      ∃ before behind, line.Holds content number offset before behind := by
  constructor
  · intro h
    induction hlines : lines content generalizing content number offset with
    | nil =>
        rw [hlines] at h
        cases h
    | cons first others ih =>
        obtain ⟨rest, rfl, rfl, hinside, hends⟩ := exists_first_line hlines
        rw [hlines, locate] at h
        split at h
        · next hcolumn =>
            obtain rfl := Option.some.inj h
            exact ⟨[], rest, rfl, Nat.zero_add _, hcolumn, .inl rfl, hinside, hends, rfl⟩
        · next hpassed =>
            obtain ⟨before, behind, hline⟩ := ih rest (number + 1) _ h rfl
            have hrest : rest ≠ [] := by
              rintro rfl
              cases h
            -- What is passed ends with its only newline.
            obtain ⟨front, rfl⟩ := List.getLast?_eq_some_iff.1 (hends.resolve_left hrest)
            rw [List.dropLast_concat] at hinside
            refine ⟨front ++ ['\n'] ++ before, behind, ?_, ?_, hline.inLine, ?_, hline.inside,
              hline.ending, ?_⟩
            · rw [hline.split]
              simp only [List.append_assoc]
            · have hplace := hline.place
              rw [byteLength_append]
              omega
            · rcases hline.wholeLines with rfl | ⟨inner, rfl⟩
              · exact .inr ⟨front, List.append_nil _⟩
              · exact .inr ⟨front ++ ['\n'] ++ inner, (List.append_assoc _ _ _).symm⟩
            · rw [hline.numbered, List.count_append, List.count_append,
                List.count_eq_zero.2 hinside, List.count_singleton_self, Nat.zero_add, Nat.add_assoc]
  · rintro ⟨before, behind, hline⟩
    have hne : line.text ≠ [] := by
      intro hnil
      have hcolumn := hline.inLine
      rw [hnil] at hcolumn
      cases hcolumn
    have hlines : lines content = lines before ++ line.text :: lines behind := by
      rw [hline.split, List.append_assoc, lines_append hline.wholeLines,
        lines_append_of_dropLast hne hline.inside hline.ending]
    have hlocate := locate_append number (lines before) (lines behind) hline.inLine
    rw [flatten_lines, hline.place, length_lines hline.wholeLines, ← hline.numbered] at hlocate
    rw [hlines, hlocate]

end Line

/--
An offset is looked up in vain exactly if the text is not longer than it. What is
found is the line that the offset falls into, with its number counted from one and
its place in it, and there is no other.
-/
theorem line_lookup_exact
    (content : String)
    (offset : Nat) :
    (Line.at? content offset = none ↔ content.utf8ByteSize ≤ offset) ∧
      ∀ line : Line,
        Line.at? content offset = some line ↔
          ∃ before behind, line.Holds content.toList 1 offset before behind := by
  constructor
  · rw [Line.at?, Line.locate_eq_none_iff, flatten_lines, byteLength_toList]
  · intro line
    exact Line.locate_lines_eq_some_iff content.toList 1 offset line

end Text
end CometLang
