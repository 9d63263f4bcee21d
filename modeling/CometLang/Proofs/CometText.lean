import CometLang.Proofs.Numerals

/-!
# Texts of comets

A comet is written with a minus sign or none and with decimal digits, and its
number lies in the range of 64 bits. Both readers of numbers take such a text,
and what is written for the result of an operation is such a text again.
-/

namespace CometLang

namespace Numeral

/-- A literal whose number lies in the range of 64 bits. -/
def isComet (text : String) : Bool :=
  isCometLiteral text.toList && (integerOf? text.toList).any fits64

/-- A digit is no sign. -/
theorem splitSign_of_isDigits
    {cs : List Char}
    (h : isDigits cs = true) :
    splitSign cs = (false, cs) := by
  unfold splitSign
  split
  · simp [isDigits] at h
  · simp [isDigits] at h
  · rfl

/-- A literal is digits, or a minus sign and digits. -/
theorem isCometLiteral_iff
    {cs : List Char} :
    isCometLiteral cs = true ↔
      isDigits cs = true ∨ ∃ digits, cs = '-' :: digits ∧ isDigits digits = true := by
  unfold isCometLiteral
  constructor
  · intro h
    split at h
    · next digits =>
        exact .inr ⟨digits, rfl, h⟩
    · exact .inl h
  · rintro (h | ⟨digits, rfl, h⟩)
    · split
      · simp [isDigits] at h
      · exact h
    · exact h

/-- A comet is read as a whole number. -/
theorem wholeOf?_isSome
    {text : String}
    (h : isComet text = true) :
    (wholeOf? text).isSome = true := by
  rw [isComet, Bool.and_eq_true] at h
  rw [wholeOf?, (isCometLiteral_iff_isWhole.1 h.1).isDecimal.of_ascii.trimBlanks, Option.isSome_map]
  cases hinteger : integerOf? text.toList with
  | none =>
      simp [hinteger] at h
  | some n =>
      have hfits : fits64 n = true := by
        simpa [hinteger] using h.2
      simp [Option.filter, hfits]

/-- A comet is read as a double. -/
theorem Double.ofText?_isSome
    {text : String}
    (h : isComet text = true) :
    (Double.ofText? text).isSome = true := by
  rw [isComet, Bool.and_eq_true] at h
  exact ofText?_of_isDecimal (isCometLiteral_iff_isWhole.1 h.1).isDecimal

/-- The digits of a number are digits, and they write the number. -/
theorem toDigits_spec
    (n : Nat) :
    isDigits (Nat.toDigits 10 n) = true ∧ digitsValue (Nat.toDigits 10 n) = n := by
  constructor
  · simp only [isDigits, Bool.and_eq_true, List.all_eq_true]
    refine ⟨by simp [Nat.toDigits_ne_nil], fun c hc => ?_⟩
    exact Nat.isDigit_of_mem_toDigits (by decide) (by decide) hc
  · exact Nat.ofDigitChars_toDigits (by decide) (by decide)

/-- What is written for an integer is a literal, and is read as the integer. -/
theorem integerOf?_repr
    (a : Int) :
    isCometLiteral a.repr.toList = true ∧ integerOf? a.repr.toList = some a := by
  rw [Int.repr_eq_if]
  split
  · next hsign =>
      obtain ⟨hdigits, hvalue⟩ := toDigits_spec a.toNat
      have htext : a.toNat.repr.toList = Nat.toDigits 10 a.toNat := by
        simp [Nat.repr_eq_ofList_toDigits]
      rw [htext, isCometLiteral_iff, integerOf?, splitSign_of_isDigits hdigits]
      simp only [hdigits, hvalue, signedValue]
      exact ⟨.inl trivial, by simp; omega⟩
  · next hsign =>
      obtain ⟨hdigits, hvalue⟩ := toDigits_spec (-a).toNat
      have htext : ("-" ++ (-a).toNat.repr).toList = '-' :: Nat.toDigits 10 (-a).toNat := by
        simp [Nat.repr_eq_ofList_toDigits]
      rw [htext, isCometLiteral_iff, integerOf?, splitSign]
      simp only [hdigits, hvalue, signedValue]
      exact ⟨.inr ⟨_, rfl, hdigits⟩, by simp; omega⟩

/-- What is written for a comet is the text of a comet. -/
theorem isComet_wholeText
    (n : Int64) :
    isComet (wholeText n) = true := by
  have hfits : fits64 n.toInt = true := by
    have hlow := n.le_toInt
    have hhigh := n.toInt_lt
    simp only [fits64, Bool.and_eq_true, decide_eq_true_eq]
    omega
  obtain ⟨hliteral, hinteger⟩ := integerOf?_repr n.toInt
  rw [wholeText, Int.toString_eq_repr, isComet, hliteral, hinteger]
  simpa using hfits

/-- What is written for a comet is a whole number in the digits of ASCII. -/
theorem isWhole_wholeText
    (n : Int64) :
    IsWhole Char.isDigit (wholeText n) := by
  have hcomet := isComet_wholeText n
  rw [isComet, Bool.and_eq_true] at hcomet
  exact isCometLiteral_iff_isWhole.1 hcomet.1

end Numeral
end CometLang
