import CometLang.Proofs.Concatenation
import CometLang.Proofs.Placement

/-!
# Parts of a text

Neighbouring words of a text take up a part of it: from the start of the first
one to the end of the last one, with a blank or the end of the text on both
sides. Split on its own, this part has just these words, and they do not depend
on where the part starts.
-/

namespace CometLang
namespace Text

/-- The part of the text between two offsets, both of which are ends of words. -/
structure IsPart
    (source : List Char)
    (start stop : Nat)
    (inside : List Char) : Prop where
  around : ∃ front back,
    source = front ++ inside ++ back ∧ byteLength front = start ∧
      byteLength (front ++ inside) = stop ∧
      (∀ c ∈ front.getLast?, isBlank c = true) ∧ ∀ c ∈ back.head?, isBlank c = true
  ne_nil : inside ≠ []
  first : ∀ c ∈ inside.head?, isBlank c = false
  last : ∀ c ∈ inside.getLast?, isBlank c = false

namespace IsPart

variable {source inside : List Char} {start stop : Nat}

theorem start_add
    (h : IsPart source start stop inside) :
    start + byteLength inside = stop := by
  obtain ⟨front, back, -, rfl, rfl, -, -⟩ := h.around
  rw [byteLength_append]

theorem start_lt_stop
    (h : IsPart source start stop inside) :
    start < stop := by
  have hpos := byteLength_pos h.ne_nil
  have hadd := h.start_add
  omega

theorem stop_le
    (h : IsPart source start stop inside) :
    stop ≤ byteLength source := by
  obtain ⟨front, back, rfl, -, rfl, -, -⟩ := h.around
  rw [byteLength_append (front ++ inside) back]
  omega

end IsPart

namespace Word

/-- Blanks in front of a text are part of no word. -/
theorem splitFrom_blanks_append
    (offset : Nat)
    {gap : List Char}
    (h : ∀ c ∈ gap, isBlank c = true)
    (cs : List Char) :
    splitFrom offset (gap ++ cs) = splitFrom (offset + byteLength gap) cs := by
  induction gap generalizing offset with
  | nil =>
      rfl
  | cons c gap ih =>
      rw [List.cons_append, splitFrom, if_pos (h c (by simp)),
        ih _ fun d hd => h d (by simp [hd]), byteLength, Nat.add_assoc]

/-- Between two words there is at least one byte. -/
theorem pairwise_stop_splitFrom
    (offset : Nat)
    (cs : List Char) :
    (splitFrom offset cs).Pairwise fun v w => v.stop < w.offset := by
  induction hws : splitFrom offset cs generalizing offset cs with
  | nil =>
      exact .nil
  | cons v ws ih =>
      obtain ⟨gap, rest, -, -, -, hrest, rfl⟩ := splitFrom_eq_cons hws
      refine List.pairwise_cons.2 ⟨?_, ih v.stop rest rfl⟩
      intro w hw
      cases rest with
      | nil =>
          cases hw
      | cons blank rest =>
          have hsize := blank.utf8Size_pos
          rw [splitFrom, if_pos (hrest blank rfl)] at hw
          have hle := (of_mem_splitFrom hw).1
          omega

/-- Behind the last of some words the text can be cut. -/
theorem exists_cut_behind
    {offset : Nat}
    {cs : List Char}
    {ws vs : List Word}
    {last : Word}
    (h : splitFrom offset cs = ws ++ last :: vs) :
    ∃ front back,
      cs = front ++ back ∧ splitFrom offset front = ws ++ [last] ∧
        (∀ c ∈ back.head?, isBlank c = true) ∧ last.stop = offset + byteLength front := by
  induction ws generalizing offset cs with
  | nil =>
      obtain ⟨gap, rest, rfl, hgap, hoffset, hrest, -⟩ := splitFrom_eq_cons h
      have hword : IsWord last.text := (of_mem_splitFrom (w := last) (by rw [h]; simp)).2
      refine ⟨gap ++ last.text, rest, rfl, ?_, hrest, ?_⟩
      · rw [splitFrom_blanks_append offset hgap, splitFrom_of_isWord _ hword, ← hoffset]
        rfl
      · rw [stop, hoffset, byteLength_append, Nat.add_assoc]
  | cons w ws ih =>
      obtain ⟨gap, rest, rfl, hgap, hoffset, hrest, hws⟩ := splitFrom_eq_cons h
      have hword : IsWord w.text := (of_mem_splitFrom (w := w) (by rw [h]; simp)).2
      obtain ⟨front, back, rfl, hfront, hblank, hstop⟩ := ih hws
      have hne : front ≠ [] := by
        rintro rfl
        simp [splitFrom] at hfront
      have hhead : ∀ c ∈ front.head?, isBlank c = true := by
        rwa [List.head?_append_of_ne_nil _ hne] at hrest
      refine ⟨gap ++ w.text ++ front, back, by simp, ?_, hblank, ?_⟩
      · rw [List.append_assoc, splitFrom_blanks_append offset hgap, splitFrom_append _ _ hhead,
          splitFrom_of_isWord _ hword, ← hoffset]
        have hplace : w.offset + byteLength w.text = w.stop := rfl
        rw [hplace, hfront]
        rfl
      · rw [hstop, stop, hoffset]
        simp only [byteLength_append]
        omega

/-- Before every word the text can be cut. -/
theorem exists_cut_before
    {offset : Nat}
    {cs : List Char}
    {ws vs : List Word}
    {first : Word}
    (h : splitFrom offset cs = ws ++ first :: vs) :
    ∃ front back,
      cs = front ++ back ∧ splitFrom first.offset back = first :: vs ∧
        (∀ c ∈ front.getLast?, isBlank c = true) ∧
        first.offset = offset + byteLength front := by
  induction ws generalizing offset cs with
  | nil =>
      obtain ⟨gap, rest, rfl, hgap, hoffset, -, -⟩ := splitFrom_eq_cons h
      rw [List.append_assoc] at h
      refine ⟨gap, first.text ++ rest, by simp, ?_, ?_, hoffset⟩
      · rw [hoffset, ← splitFrom_blanks_append offset hgap]
        exact h
      · intro c hc
        exact hgap c (List.mem_of_getLast? hc)
  | cons w ws ih =>
      have hpairs := pairwise_stop_splitFrom offset cs
      rw [h, List.cons_append, List.pairwise_cons] at hpairs
      have hlt : w.stop < first.offset := hpairs.1 first (by simp)
      obtain ⟨gap, rest, rfl, -, hoffset, -, hws⟩ := splitFrom_eq_cons h
      obtain ⟨front, back, rfl, hback, hlast, hplace⟩ := ih hws
      refine ⟨gap ++ w.text ++ front, back, by simp, hback, ?_, ?_⟩
      · have hne : front ≠ [] := by
          rintro rfl
          simp only [byteLength] at hplace
          omega
        rwa [List.getLast?_append_of_ne_nil _ hne]
      · rw [hplace, stop, hoffset]
        simp only [byteLength_append]
        omega

/-- Neighbouring words take up a part of the text, which has just these words. -/
theorem exists_isPart
    {source : String}
    {before part behind : List Word}
    {first last : Word}
    (h : split source = before ++ part ++ behind)
    (hfirst : first ∈ part.head?)
    (hlast : last ∈ part.getLast?) :
    ∃ inside, IsPart source.toList first.offset last.stop inside ∧
      splitFrom first.offset inside = part := by
  obtain ⟨tail, rfl⟩ := List.head?_eq_some_iff.1 hfirst
  obtain ⟨init, hinit⟩ := List.getLast?_eq_some_iff.1 hlast
  rw [List.append_assoc, List.cons_append] at h
  obtain ⟨front, rest, hsource, hrest, hfront, hstart⟩ := exists_cut_before h
  have hwords : splitFrom first.offset rest = init ++ last :: behind := by
    rw [hrest, ← List.cons_append, hinit, List.append_assoc, List.singleton_append]
  obtain ⟨inside, back, rfl, hinside, hback, hstop⟩ := exists_cut_behind hwords
  rw [← hinit] at hinside
  refine ⟨inside, ⟨⟨front, back, ?_, ?_, ?_, hfront, hback⟩, ?_, ?_, ?_⟩, hinside⟩
  · rw [hsource, List.append_assoc]
  · omega
  · rw [byteLength_append]
    omega
  · rintro rfl
    simp [splitFrom] at hinside
  · -- No gap is left in front of the first word.
    obtain ⟨gap, behind', rfl, -, hoffset, -, -⟩ := splitFrom_eq_cons hinside
    obtain rfl : gap = [] := eq_nil_of_byteLength (by omega)
    obtain ⟨hne, hnot⟩ := (of_mem_splitFrom (w := first) (by rw [hinside]; simp)).2
    intro c hc
    rw [List.nil_append, List.head?_append_of_ne_nil _ hne] at hc
    exact hnot c (List.mem_of_head? hc)
  · -- Nothing is left behind the last word.
    have hmem : last ∈ splitFrom first.offset inside := by
      rw [hinside]
      exact List.mem_of_getLast? hlast
    obtain ⟨before', behind', rfl, hoffset, -, -⟩ := exists_around hmem
    simp only [stop, byteLength_append] at hstop
    obtain rfl : behind' = [] := eq_nil_of_byteLength (by omega)
    obtain ⟨hne, hnot⟩ := (of_mem_splitFrom hmem).2
    intro c hc
    rw [List.append_nil, List.getLast?_append_of_ne_nil _ hne] at hc
    exact hnot c (List.mem_of_getLast? hc)

/-- A part that is one word is its text. -/
theorem eq_text_of_isPart
    {source inside : List Char}
    {w : Word}
    (hpart : IsPart source w.offset w.stop inside)
    (h : splitFrom w.offset inside = [w]) :
    inside = w.text := by
  have hbytes := hpart.start_add
  obtain ⟨gap, rest, rfl, -, -, -, -⟩ := splitFrom_eq_cons h
  simp only [stop, byteLength_append] at hbytes
  have hgap : gap = [] := eq_nil_of_byteLength (by omega)
  have hrest : rest = [] := eq_nil_of_byteLength (by omega)
  rw [hgap, hrest, List.nil_append, List.append_nil]

/-- Where a text starts does not matter to the texts of its words. -/
theorem map_text_splitFrom
    (offset : Nat)
    (cs : List Char) :
    (splitFrom offset cs).map text = (splitFrom 0 cs).map text := by
  have hmoved := splitFrom_advance offset 0 cs
  rw [Nat.zero_add] at hmoved
  rw [hmoved, List.map_map]
  rfl

end Word
end Text
end CometLang
