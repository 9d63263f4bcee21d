import Mathlib.Data.List.TakeWhile
import CometLang.Numeral.Double
import CometLang.Numeral.Received
import CometLang.Token.Tag

/-!
# Numerals as patterns

A numeral is a minus sign or none, digits, and possibly a point and more
digits. What counts as a digit is left open: reception takes the decimal digits
of every script, a literal has those of ASCII and no point. Both tests are
exactly such patterns.

The reader of doubles takes a numeral if its digits are those of ASCII, and only
then. So the numerals that reception takes and a comparison does not are those
with a digit of another script in them.
-/

namespace CometLang

namespace Text

/-- Nothing is trimmed from a text without blanks. -/
theorem trimBlanks_eq_self
    {cs : List Char}
    (h : ∀ c ∈ cs, isBlank c = false) :
    trimBlanks cs = cs := by
  have hdrop {ds : List Char} (hds : ∀ c ∈ ds, isBlank c = false) :
      ds.dropWhile isBlank = ds := by
    cases ds with
    | nil =>
        rfl
    | cons d ds =>
        exact List.dropWhile_cons_of_neg (by simp [hds d (by simp)])
  rw [trimBlanks, hdrop h, hdrop (by simpa using h), List.reverse_reverse]

theorem toNat_of_isDigit
    {c : Char}
    (h : c.isDigit = true) :
    48 ≤ c.toNat ∧ c.toNat ≤ 57 := by
  simp only [Char.isDigit, Bool.and_eq_true, decide_eq_true_eq, UInt32.le_iff_toNat_le] at h
  exact h

/-- The digits of ASCII are decimal digits. -/
theorem isDecimalDigit_of_isDigit
    {c : Char}
    (h : c.isDigit = true) :
    isDecimalDigit c = true := by
  have hrange := toNat_of_isDigit h
  rw [isDecimalDigit, inRanges, decimalDigits, List.any_cons, Bool.or_eq_true]
  left
  simpa [CodeRange.holds] using hrange

/-- What lies in one of the ranges does not lie in a range that is apart from all of them. -/
theorem not_holds_of_inRanges
    {ranges : List CodeRange}
    {c : Char}
    (h : inRanges ranges c = true)
    {range : CodeRange}
    (hrange : ∀ other ∈ ranges, other.last < range.first ∨ range.last < other.first) :
    range.holds c = false := by
  rw [inRanges, List.any_eq_true] at h
  obtain ⟨other, hother, hholds⟩ := h
  have hapart := hrange other hother
  simp only [CodeRange.holds, Bool.and_eq_true, decide_eq_true_eq] at hholds
  simp only [CodeRange.holds, Bool.and_eq_false_iff, decide_eq_false_iff_not]
  omega

/-- No range of blanks meets a range of decimal digits. -/
theorem blanks_apart :
    ∀ range ∈ blanks, ∀ other ∈ decimalDigits,
      other.last < range.first ∨ range.last < other.first := by
  decide

theorem isBlank_of_isDecimalDigit
    {c : Char}
    (h : isDecimalDigit c = true) :
    isBlank c = false := by
  rw [isBlank, inRanges, List.any_eq_false]
  intro range hrange
  simpa using not_holds_of_inRanges h (blanks_apart range hrange)

/-- A decimal digit is no capital letter, so it is left when letters are made small. -/
theorem toLower_of_isDecimalDigit
    {c : Char}
    (h : isDecimalDigit c = true) :
    c.toLower = c := by
  have hapart : ∀ other ∈ decimalDigits, other.last < 65 ∨ 90 < other.first := by
    decide
  have hholds : (CodeRange.mk 65 90).holds c = false := not_holds_of_inRanges h hapart
  refine dif_neg ?_
  rintro ⟨hlow, hhigh⟩
  simp only [CodeRange.holds, Bool.and_eq_false_iff, decide_eq_false_iff_not] at hholds
  rw [ge_iff_le, UInt32.le_iff_toNat_le] at hlow
  rw [UInt32.le_iff_toNat_le] at hhigh
  change 65 ≤ c.toNat at hlow
  change c.toNat ≤ 90 at hhigh
  omega

end Text

namespace Numeral

/-! ## Patterns -/

/-- One digit at least, and nothing else. -/
def IsRun
    (digit : Char → Bool)
    (cs : List Char) : Prop :=
  cs ≠ [] ∧ ∀ c ∈ cs, digit c = true

/-- Digits with a point between them. -/
def HasPoint
    (digit : Char → Bool)
    (cs : List Char) : Prop :=
  ∃ whole fraction, cs = whole ++ '.' :: fraction ∧ IsRun digit whole ∧ IsRun digit fraction

/-- Digits, or digits with a point between them. -/
def IsUnsigned
    (digit : Char → Bool)
    (cs : List Char) : Prop :=
  IsRun digit cs ∨ HasPoint digit cs

/-- A minus sign or none stands in front. -/
def Signed
    (body : List Char → Prop)
    (cs : List Char) : Prop :=
  ∃ sign rest, cs = sign ++ rest ∧ (sign = [] ∨ sign = ['-']) ∧ body rest

/-- The text is a minus sign or none, and digits. -/
def IsWhole
    (digit : Char → Bool)
    (text : String) : Prop :=
  Signed (IsRun digit) text.toList

/-- The text is a minus sign or none, and digits with a point between them. -/
def IsFractional
    (digit : Char → Bool)
    (text : String) : Prop :=
  Signed (HasPoint digit) text.toList

/-- The text is a minus sign or none, digits, and possibly a point and more digits. -/
def IsDecimal
    (digit : Char → Bool)
    (text : String) : Prop :=
  Signed (IsUnsigned digit) text.toList

/-- There is a decimal digit that is not one of ASCII. -/
def HasForeignDigit (cs : List Char) : Prop :=
  ∃ c ∈ cs, Text.isDecimalDigit c = true ∧ c.isDigit = false

namespace Signed

variable {body : List Char → Prop}

theorem mono
    {body' : List Char → Prop}
    {cs : List Char}
    (h : Signed body cs)
    (hbody : ∀ rest, rest <:+ cs → body rest → body' rest) :
    Signed body' cs := by
  obtain ⟨sign, rest, rfl, hsign, hrest⟩ := h
  exact ⟨sign, rest, rfl, hsign, hbody rest (List.suffix_append sign rest) hrest⟩

/-- What cannot start with a minus sign stands behind the one in front. -/
theorem cons_minus_iff
    (hbody : ∀ rest, ¬body ('-' :: rest))
    (rest : List Char) :
    Signed body ('-' :: rest) ↔ body rest := by
  constructor
  · rintro ⟨sign, behind, heq, rfl | rfl, hbehind⟩
    · rw [List.nil_append] at heq
      exact absurd (heq ▸ hbehind) (hbody rest)
    · rw [List.singleton_append, List.cons.injEq] at heq
      exact heq.2 ▸ hbehind
  · intro hrest
    exact ⟨['-'], rest, rfl, .inr rfl, hrest⟩

/-- Without a minus sign in front there is only the body. -/
theorem iff_of_ne
    {cs : List Char}
    (hcs : ∀ rest, cs ≠ '-' :: rest) :
    Signed body cs ↔ body cs := by
  constructor
  · rintro ⟨sign, rest, rfl, rfl | rfl, hrest⟩
    · exact hrest
    · exact absurd rfl (hcs rest)
  · intro hbody
    exact ⟨[], cs, rfl, .inl rfl, hbody⟩

end Signed

section Patterns

variable {digit : Char → Bool}

theorem IsRun.head
    {c : Char}
    {cs : List Char}
    (h : IsRun digit (c :: cs)) :
    digit c = true :=
  h.2 c List.mem_cons_self

/-- The first of the characters is a digit. -/
theorem IsUnsigned.head
    {c : Char}
    {cs : List Char}
    (h : IsUnsigned digit (c :: cs)) :
    digit c = true := by
  rcases h with hrun | ⟨whole, fraction, heq, hwhole, -⟩
  · exact hrun.head
  · cases whole with
    | nil =>
        exact absurd rfl hwhole.1
    | cons d whole =>
        rw [List.cons_append, List.cons.injEq] at heq
        rw [heq.1]
        exact hwhole.head

/-- Digits end where something else stands. -/
theorem takeWhile_of_isRun
    {whole : List Char}
    (hwhole : IsRun digit whole)
    (rest : List Char)
    (hrest : ∀ c ∈ rest.head?, digit c = false) :
    (whole ++ rest).takeWhile digit = whole ∧ (whole ++ rest).dropWhile digit = rest := by
  rw [List.takeWhile_append_of_pos hwhole.2, List.dropWhile_append_of_pos hwhole.2]
  cases rest with
  | nil =>
      simp
  | cons c rest =>
      have hc : digit c = false := hrest c rfl
      simp [hc]

theorem IsWhole.isDecimal
    {text : String}
    (h : IsWhole digit text) :
    IsDecimal digit text :=
  h.mono fun _ _ hrun => .inl hrun

end Patterns

/-! ## The two tests -/

/-- Digits, or digits around one point, are what reception looks for. -/
theorem isUnsignedNumeral_iff
    {cs : List Char} :
    isUnsignedNumeral cs = true ↔ IsUnsigned Text.isDecimalDigit cs := by
  have hpoint : Text.isDecimalDigit '.' = false := by decide
  have hsplit := List.takeWhile_append_dropWhile (p := Text.isDecimalDigit) (l := cs)
  have hdigits : ∀ c ∈ cs.takeWhile Text.isDecimalDigit, Text.isDecimalDigit c = true :=
    fun c hc => List.mem_takeWhile_imp hc
  constructor
  · intro h
    rw [isUnsignedNumeral] at h
    split at h
    · next hdrop =>
        rw [hdrop, List.append_nil] at hsplit
        rw [hsplit] at h hdigits
        exact .inl ⟨by simpa using h, hdigits⟩
    · next fraction hdrop =>
        rw [Bool.and_eq_true, isDecimalRun, Bool.and_eq_true, List.all_eq_true] at h
        rw [hdrop] at hsplit
        exact .inr ⟨_, fraction, hsplit.symm, ⟨by simpa using h.1, hdigits⟩,
          by simpa using h.2.1, h.2.2⟩
    · cases h
  · rintro (hrun | ⟨whole, fraction, rfl, hwhole, hfraction⟩)
    · obtain ⟨htake, hdrop⟩ := takeWhile_of_isRun hrun [] (by simp)
      rw [List.append_nil] at htake hdrop
      simp [isUnsignedNumeral, htake, hdrop, hrun.1]
    · obtain ⟨htake, hdrop⟩ := takeWhile_of_isRun hwhole ('.' :: fraction) (by simpa using hpoint)
      simp [isUnsignedNumeral, isDecimalRun, htake, hdrop, hwhole.1, hfraction.1]
      exact hfraction.2

/-- Reception takes the decimals of every script. -/
theorem isNumeral_iff
    {text : String} :
    isNumeral text.toList = true ↔ IsDecimal Text.isDecimalDigit text := by
  have hminus : ∀ rest, ¬IsUnsigned Text.isDecimalDigit ('-' :: rest) := by
    intro rest hbody
    exact absurd hbody.head (by decide)
  unfold isNumeral IsDecimal
  split
  · next rest heq =>
      rw [heq, Signed.cons_minus_iff hminus, isUnsignedNumeral_iff]
  · next hne =>
      rw [Signed.iff_of_ne hne, isUnsignedNumeral_iff]

/-- A literal is a whole number in the digits of ASCII. -/
theorem isCometLiteral_iff_isWhole
    {text : String} :
    isCometLiteral text.toList = true ↔ IsWhole Char.isDigit text := by
  have hminus : ∀ rest, ¬IsRun Char.isDigit ('-' :: rest) := by
    intro rest hrun
    exact absurd hrun.head (by decide)
  unfold isCometLiteral IsWhole
  split
  · next rest heq =>
      rw [heq, Signed.cons_minus_iff hminus]
      simp [IsRun]
  · next hne =>
      rw [Signed.iff_of_ne hne]
      simp [IsRun]

/-! ## Digits of ASCII -/

theorem IsRun.of_ascii
    {cs : List Char}
    (h : IsRun Char.isDigit cs) :
    IsRun Text.isDecimalDigit cs :=
  ⟨h.1, fun c hc => Text.isDecimalDigit_of_isDigit (h.2 c hc)⟩

theorem HasPoint.of_ascii
    {cs : List Char}
    (h : HasPoint Char.isDigit cs) :
    HasPoint Text.isDecimalDigit cs := by
  obtain ⟨whole, fraction, heq, hwhole, hfraction⟩ := h
  exact ⟨whole, fraction, heq, hwhole.of_ascii, hfraction.of_ascii⟩

/-- A decimal in the digits of ASCII is one in the digits of all scripts. -/
theorem IsDecimal.of_ascii
    {text : String}
    (h : IsDecimal Char.isDigit text) :
    IsDecimal Text.isDecimalDigit text :=
  h.mono fun _ _ hbody => hbody.imp IsRun.of_ascii HasPoint.of_ascii

/-- Without foreign digits there are those of ASCII. -/
theorem IsUnsigned.ascii
    {cs : List Char}
    (h : IsUnsigned Text.isDecimalDigit cs)
    (hforeign : ¬HasForeignDigit cs) :
    IsUnsigned Char.isDigit cs := by
  have hrun {run : List Char} (hsub : run ⊆ cs) (hdigits : IsRun Text.isDecimalDigit run) :
      IsRun Char.isDigit run := by
    refine ⟨hdigits.1, fun c hc => ?_⟩
    by_contra hdigit
    exact hforeign ⟨c, hsub hc, hdigits.2 c hc, by simpa using hdigit⟩
  rcases h with hdigits | ⟨whole, fraction, rfl, hwhole, hfraction⟩
  · exact .inl (hrun (List.Subset.refl cs) hdigits)
  · refine .inr ⟨whole, fraction, rfl, hrun ?_ hwhole, hrun ?_ hfraction⟩
    · exact List.subset_append_left _ _
    · intro c hc
      simp [hc]

theorem IsDecimal.ascii
    {text : String}
    (h : IsDecimal Text.isDecimalDigit text)
    (hforeign : ¬HasForeignDigit text.toList) :
    IsDecimal Char.isDigit text := by
  refine h.mono fun rest hrest hbody => hbody.ascii ?_
  rintro ⟨c, hc, hdigit⟩
  exact hforeign ⟨c, hrest.subset hc, hdigit⟩

theorem IsDecimal.not_foreign
    {text : String}
    (h : IsDecimal Char.isDigit text) :
    ¬HasForeignDigit text.toList := by
  obtain ⟨sign, body, heq, hsign, hbody⟩ := h
  rw [heq]
  rintro ⟨c, hc, hdigit, hforeign⟩
  have hrun {run : List Char} (hdigits : IsRun Char.isDigit run) : c ∉ run := by
    intro hmem
    rw [hdigits.2 c hmem] at hforeign
    cases hforeign
  rcases List.mem_append.1 hc with hmem | hmem
  · rcases hsign with rfl | rfl
    · cases hmem
    · rw [List.mem_singleton.1 hmem] at hdigit
      exact absurd hdigit (by decide)
  · rcases hbody with hdigits | ⟨whole, fraction, rfl, hwhole, hfraction⟩
    · exact hrun hdigits hmem
    · rcases List.mem_append.1 hmem with hleft | hright
      · exact hrun hwhole hleft
      · rcases List.mem_cons.1 hright with rfl | hright
        · exact absurd hdigit (by decide)
        · exact hrun hfraction hright

/-- A decimal of ASCII that has no point between its digits is whole. -/
theorem IsDecimal.isWhole
    {text : String}
    (h : IsDecimal Char.isDigit text)
    (hpoint : ¬IsFractional Text.isDecimalDigit text) :
    IsWhole Char.isDigit text := by
  obtain ⟨sign, rest, heq, hsign, hrun | hrest⟩ := h
  · exact ⟨sign, rest, heq, hsign, hrun⟩
  · exact absurd ⟨sign, rest, heq, hsign, hrest.of_ascii⟩ hpoint

/-! ## Doubles -/

/-- There are no blanks in a decimal. -/
theorem IsDecimal.trimBlanks
    {text : String}
    (h : IsDecimal Text.isDecimalDigit text) :
    Text.trimBlanks text.toList = text.toList := by
  have hrun {cs : List Char} (hcs : IsRun Text.isDecimalDigit cs) :
      ∀ c ∈ cs, Text.isBlank c = false :=
    fun c hc => Text.isBlank_of_isDecimalDigit (hcs.2 c hc)
  obtain ⟨sign, body, heq, hsign, hbody⟩ := h
  have hminus : ∀ c ∈ sign, Text.isBlank c = false := by
    rcases hsign with rfl | rfl
    · simp
    · simp; decide
  apply Text.trimBlanks_eq_self
  rw [heq, List.forall_mem_append]
  refine ⟨hminus, ?_⟩
  rcases hbody with hdigits | ⟨whole, fraction, rfl, hwhole, hfraction⟩
  · exact hrun hdigits
  · rw [List.forall_mem_append, List.forall_mem_cons]
    exact ⟨hrun hwhole, by decide, hrun hfraction⟩

/-- The digits of a decimal follow its sign, which is none of them. -/
theorem IsDecimal.splitSign
    {text : String}
    (h : IsDecimal Text.isDecimalDigit text) :
    ∃ negative body, Numeral.splitSign text.toList = (negative, body) ∧
      IsUnsigned Text.isDecimalDigit body ∧
      (HasForeignDigit text.toList ↔ HasForeignDigit body) := by
  obtain ⟨sign, body, heq, hsign, hbody⟩ := h
  rw [heq]
  rcases hsign with rfl | rfl
  · refine ⟨false, body, ?_, hbody, Iff.rfl⟩
    rw [List.nil_append]
    unfold Numeral.splitSign
    split
    · exact absurd hbody.head (by decide)
    · exact absurd hbody.head (by decide)
    · rfl
  · refine ⟨true, body, rfl, hbody, ?_⟩
    have hminus : Text.isDecimalDigit '-' = false := by
      decide
    simp [HasForeignDigit, hminus]

namespace Double

/-- Digits of ASCII, possibly with a point between them, are read. -/
theorem decimalOf?_isSome
    (negative : Bool)
    {cs : List Char}
    (h : IsUnsigned Char.isDigit cs) :
    (decimalOf? negative cs).isSome = true := by
  rcases h with hrun | ⟨whole, fraction, rfl, hwhole, hfraction⟩
  · obtain ⟨htake, hdrop⟩ := takeWhile_of_isRun hrun [] (by simp)
    rw [List.append_nil] at htake hdrop
    simp [decimalOf?, htake, hdrop, splitFraction, exponentOf?, hrun.1]
  · obtain ⟨htake, hdrop⟩ := takeWhile_of_isRun hwhole ('.' :: fraction) (by simp)
    obtain ⟨htake', hdrop'⟩ := takeWhile_of_isRun hfraction [] (by simp)
    rw [List.append_nil] at htake' hdrop'
    simp [decimalOf?, htake, hdrop, splitFraction, htake', hdrop', exponentOf?, hwhole.1]

/-- Where the digits of ASCII end in others, one of these is next. -/
theorem dropWhile_of_foreign
    {cs : List Char}
    (hcs : ∀ c ∈ cs, Text.isDecimalDigit c = true)
    (hforeign : ∃ c ∈ cs, c.isDigit = false)
    (rest : List Char) :
    ∃ c behind, (cs ++ rest).dropWhile Char.isDigit = c :: behind ∧
      Text.isDecimalDigit c = true := by
  induction cs with
  | nil =>
      simp at hforeign
  | cons c cs ih =>
      rw [List.forall_mem_cons] at hcs
      rw [List.cons_append]
      by_cases hc : c.isDigit = true
      · rw [List.dropWhile_cons_of_pos hc]
        exact ih hcs.2 (by simpa [hc] using hforeign)
      · rw [List.dropWhile_cons_of_neg hc]
        exact ⟨c, cs ++ rest, rfl, hcs.1⟩

/-- No exponent starts with a decimal digit. -/
theorem exponentOf?_of_isDecimalDigit
    {c : Char}
    (h : Text.isDecimalDigit c = true)
    (rest : List Char) :
    exponentOf? (c :: rest) = none := by
  rw [exponentOf?]
  apply if_neg
  rintro ⟨rfl | rfl, -⟩
  · exact absurd h (by decide)
  · exact absurd h (by decide)

/-- A decimal digit is no point. -/
theorem splitFraction_of_isDecimalDigit
    {c : Char}
    (h : Text.isDecimalDigit c = true)
    (rest : List Char) :
    splitFraction (c :: rest) = ([], c :: rest) := by
  unfold splitFraction
  split
  · next heq =>
      rw [List.cons.injEq] at heq
      exact absurd (heq.1 ▸ h) (by decide)
  · rfl

/-- Digits among which there is a foreign one are not read. -/
theorem decimalOf?_eq_none
    (negative : Bool)
    {cs : List Char}
    (h : IsUnsigned Text.isDecimalDigit cs)
    (hforeign : HasForeignDigit cs) :
    decimalOf? negative cs = none := by
  -- Reading stops at the first foreign digit, whichever side of the point it is on.
  have hstop {run : List Char} (hrun : IsRun Text.isDecimalDigit run)
      (hmem : ∃ c ∈ run, c.isDigit = false) (rest : List Char) :
      decimalOf? negative (run ++ rest) = none := by
    obtain ⟨c, behind, hdrop, hc⟩ := dropWhile_of_foreign hrun.2 hmem rest
    simp [decimalOf?, hdrop, splitFraction_of_isDecimalDigit hc,
      exponentOf?_of_isDecimalDigit hc]
  obtain ⟨c, hc, hdigit, hother⟩ := hforeign
  rcases h with hrun | ⟨whole, fraction, rfl, hwhole, hfraction⟩
  · simpa using hstop hrun ⟨c, hc, hother⟩ []
  · by_cases hfirst : ∃ d ∈ whole, d.isDigit = false
    · exact hstop hwhole hfirst _
    · have hascii : IsRun Char.isDigit whole := ⟨hwhole.1, by simpa using hfirst⟩
      have hmem : ∃ d ∈ fraction, d.isDigit = false := by
        refine ⟨c, ?_, hother⟩
        rcases List.mem_append.1 hc with hleft | hright
        · exact absurd ⟨c, hleft, hother⟩ hfirst
        · rcases List.mem_cons.1 hright with rfl | hright
          · exact absurd hdigit (by decide)
          · exact hright
      obtain ⟨-, hdrop⟩ := takeWhile_of_isRun hascii ('.' :: fraction) (by simp)
      obtain ⟨d, behind, hbehind, hd⟩ := dropWhile_of_foreign hfraction.2 hmem []
      rw [List.append_nil] at hbehind
      simp [decimalOf?, hdrop, splitFraction, hbehind, exponentOf?_of_isDecimalDigit hd]

/-- A word that starts with a decimal digit is no name of a double. -/
theorem toLower_ne
    {cs : List Char}
    (h : IsUnsigned Text.isDecimalDigit cs)
    {c : Char}
    (hc : Text.isDecimalDigit c = false)
    (word : List Char) :
    String.ofList (cs.map Char.toLower) ≠ String.ofList (c :: word) := by
  intro heq
  have hlist := String.ofList_injective heq
  cases cs with
  | nil =>
      cases hlist
  | cons d cs =>
      rw [List.map_cons, List.cons.injEq, Text.toLower_of_isDecimalDigit h.head] at hlist
      have hd := h.head
      rw [hlist.1, hc] at hd
      cases hd

/-- A numeral that reception takes is read as a double unless it has a foreign digit. -/
theorem ofText?_isSome_iff
    {text : String}
    (h : IsDecimal Text.isDecimalDigit text) :
    (ofText? text).isSome = true ↔ ¬HasForeignDigit text.toList := by
  obtain ⟨negative, body, hsplit, hbody, hforeign⟩ := h.splitSign
  have hread : ofText? text = decimalOf? negative body := by
    rw [ofText?, h.trimBlanks, hsplit]
    dsimp only
    rw [if_neg (toLower_ne hbody (by decide) _), if_neg]
    rintro (hinf | hinf)
    · exact toLower_ne hbody (by decide) _ hinf
    · exact toLower_ne hbody (by decide) _ hinf
  rw [hread, hforeign]
  constructor
  · intro hsome hdigit
    rw [decimalOf?_eq_none negative hbody hdigit] at hsome
    cases hsome
  · intro hdigit
    exact decimalOf?_isSome negative (hbody.ascii hdigit)

/-- Every decimal in the digits of ASCII is read as a double. -/
theorem ofText?_of_isDecimal
    {text : String}
    (h : IsDecimal Char.isDigit text) :
    (ofText? text).isSome = true :=
  (ofText?_isSome_iff h.of_ascii).2 h.not_foreign

end Double
end Numeral
end CometLang
