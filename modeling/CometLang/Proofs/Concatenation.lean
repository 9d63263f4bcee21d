import Mathlib.Data.List.Basic
import CometLang.Proofs.Words
import CometLang.Token.Scan

/-!
# Sources one behind the other

Reading looks at one word after the other, and at each word it either fails for
good or goes on with the words behind it. So when a source is read to its end,
nothing of it is left open, and what comes behind a blank is read as if it stood
alone. Only its places are further on, by the bytes of all that stands before it.

A source that fails at one of its words fails there whatever comes behind it. A
string or a comment that is still open at the end is another matter: the words
that come behind it may close it.
-/

namespace CometLang

open Text

/-! ## Places further on -/

/-- The span so many bytes further on in the same file. -/
def Span.advance
    (span : Span)
    (bytes : Nat) : Span :=
  ⟨span.start.advance bytes, span.stop.advance bytes⟩

/-- The fault so many bytes further on, for the same cause. -/
def Fault.advance
    (fault : Fault)
    (bytes : Nat) : Fault :=
  { fault with position := fault.position.advance bytes }

/-- The token so many bytes further on. -/
def Token.advance
    (bytes : Nat)
    (t : Token) : Token :=
  { t with span := t.span.advance bytes }

namespace Text.Word

/-- The word so many bytes further on. -/
def advance
    (bytes : Nat)
    (w : Word) : Word :=
  { w with offset := w.offset + bytes }

@[simp] theorem text_advance
    (bytes : Nat)
    (w : Word) :
    (w.advance bytes).text = w.text := by
  rfl

theorem stop_advance
    (bytes : Nat)
    (w : Word) :
    (w.advance bytes).stop = w.stop + bytes := by
  simp only [stop, advance]
  omega

theorem glue_advance
    (bytes offset : Nat)
    (c : Char)
    (ws : List Word) :
    glue (offset + bytes) c (ws.map (advance bytes))
      = (glue offset c ws).map (advance bytes) := by
  cases ws with
  | nil =>
      rfl
  | cons w ws =>
      have hplace : w.offset + bytes = offset + bytes + c.utf8Size
          ↔ w.offset = offset + c.utf8Size := by
        omega
      simp only [List.map_cons, glue, advance, hplace]
      split
      · rfl
      · rfl

/-- The words of a text that stands further on stand further on themselves. -/
theorem splitFrom_advance
    (bytes offset : Nat)
    (cs : List Char) :
    splitFrom (offset + bytes) cs = (splitFrom offset cs).map (advance bytes) := by
  induction cs generalizing offset with
  | nil =>
      rfl
  | cons c cs ih =>
      have hbehind : offset + bytes + c.utf8Size = offset + c.utf8Size + bytes := by
        omega
      rw [splitFrom, splitFrom, hbehind, ih, glue_advance]
      split
      · rfl
      · rfl

/-- The words behind a blank are those of the text behind it, further on. -/
theorem split_push_append
    (first second : String)
    {blank : Char}
    (h : isBlank blank = true) :
    split (first.push blank ++ second)
      = split first ++ (split second).map (advance (first.push blank).utf8ByteSize) := by
  have hbytes : (first.push blank).utf8ByteSize = byteLength (first.toList ++ [blank]) := by
    rw [← byteLength_toList, String.toList_push]
  have htext : (first.push blank ++ second).toList = first.toList ++ blank :: second.toList := by
    simp
  rw [split, split, split, htext, splitFrom_append_blank 0 _ h, hbytes, splitFrom_advance]

end Text.Word

/-! ## One word after the other -/

/-- The cause is a word that cannot be read, whatever stands behind it. -/
def Cause.IsOfWord (cause : Cause) : Prop :=
  (∃ token, cause = .unrecognisedToken token) ∨
    ∃ word keyword, cause = .reservedWordMisuse word keyword

namespace Token

variable {file : String}

theorem map_nil_append
    (result : Except Fault (List Token)) :
    result.map ([] ++ ·) = result := by
  cases result <;> rfl

/--
A word makes reading fail, or it yields some tokens and leaves something open
for the words behind it. Neither depends on these.
-/
theorem scanWords_step
    (file : String)
    (reading : Reading)
    (word : Word) :
    (∃ fault, fault.cause.IsOfWord ∧
        ∀ rest, scanWords file reading (word :: rest) = .error fault) ∨
      ∃ tokens reading', ∀ rest,
        scanWords file reading (word :: rest)
          = (scanWords file reading' rest).map (tokens ++ ·) := by
  cases reading with
  | plain =>
      simp only [scanWords]
      cases WordClass.of word.text with
      | token kind =>
          exact .inr ⟨[ofWord file kind word], .plain, fun rest => rfl⟩
      | misspelt keyword =>
          exact .inl ⟨_, .inr ⟨_, _, rfl⟩, fun rest => rfl⟩
      | openString =>
          dsimp only
          split
          · exact .inr ⟨[ofWord file .string word], .plain, fun rest => rfl⟩
          · exact .inr ⟨[], .string word [word.text], fun rest => (map_nil_append _).symm⟩
      | openComment =>
          dsimp only
          split
          · exact .inr ⟨[], .plain, fun rest => (map_nil_append _).symm⟩
          · exact .inr ⟨[], .comment word, fun rest => (map_nil_append _).symm⟩
      | unrecognised =>
          exact .inl ⟨_, .inl ⟨_, rfl⟩, fun rest => rfl⟩
  | string opening parts =>
      simp only [scanWords]
      split
      · exact .inr ⟨[ofString file opening word (word.text :: parts)], .plain, fun rest => rfl⟩
      · exact .inr ⟨[], .string opening (word.text :: parts), fun rest => (map_nil_append _).symm⟩
  | comment opening =>
      simp only [scanWords]
      split
      · exact .inr ⟨[], .plain, fun rest => (map_nil_append _).symm⟩
      · exact .inr ⟨[], .comment opening, fun rest => (map_nil_append _).symm⟩

/-- Words that are read to the end leave nothing open for those behind them. -/
theorem scanWords_append_of_ok
    {reading : Reading}
    {ws : List Word}
    {tokens : List Token}
    (h : scanWords file reading ws = .ok tokens)
    (vs : List Word) :
    scanWords file reading (ws ++ vs) = (scanWords file .plain vs).map (tokens ++ ·) := by
  induction ws generalizing reading tokens with
  | nil =>
      cases reading with
      | plain =>
          cases h
          rw [List.nil_append, map_nil_append]
      | string opening parts =>
          cases h
      | comment opening =>
          cases h
  | cons word ws ih =>
      rcases scanWords_step file reading word with ⟨fault, -, hstep⟩ | ⟨front, reading', hstep⟩
      · rw [hstep] at h
        cases h
      · rw [hstep] at h
        cases hrest : scanWords file reading' ws with
        | error fault =>
            rw [hrest] at h
            cases h
        | ok back =>
            rw [hrest] at h
            cases h
            rw [List.cons_append, hstep, ih hrest]
            cases scanWords file .plain vs with
            | error fault =>
                rfl
            | ok tokens =>
                exact congrArg Except.ok (List.append_assoc front back tokens).symm

/-- Words that cannot be read for one of them cannot be read with others behind them. -/
theorem scanWords_append_of_error
    {reading : Reading}
    {ws : List Word}
    {fault : Fault}
    (h : scanWords file reading ws = .error fault)
    (hcause : fault.cause.IsOfWord)
    (vs : List Word) :
    scanWords file reading (ws ++ vs) = .error fault := by
  induction ws generalizing reading with
  | nil =>
      -- At the end only a string or a comment can be at fault.
      rcases hcause with ⟨token, hcause⟩ | ⟨word, keyword, hcause⟩
      · cases reading <;> cases h <;> cases hcause
      · cases reading <;> cases h <;> cases hcause
  | cons word ws ih =>
      rcases scanWords_step file reading word with ⟨fault', -, hstep⟩ | ⟨front, reading', hstep⟩
      · rw [hstep] at h
        rw [List.cons_append, hstep, h]
      · rw [hstep] at h
        cases hrest : scanWords file reading' ws with
        | error fault' =>
            rw [hrest] at h
            cases h
            rw [List.cons_append, hstep, ih hrest]
            rfl
        | ok back =>
            rw [hrest] at h
            cases h

/-! ## The same words further on -/

/-- What is open, so many bytes further on. -/
def Reading.advance (bytes : Nat) : Reading → Reading
  | plain => plain
  | string opening parts => string (opening.advance bytes) parts
  | comment opening => comment (opening.advance bytes)

/-- What was read or what went wrong, so many bytes further on. -/
def advanceAll (bytes : Nat) : Except Fault (List Token) → Except Fault (List Token)
  | .ok tokens => .ok (tokens.map (advance bytes))
  | .error fault => .error (fault.advance bytes)

theorem advanceAll_map_cons
    (bytes : Nat)
    (t : Token)
    (result : Except Fault (List Token)) :
    advanceAll bytes (result.map (t :: ·))
      = (advanceAll bytes result).map (t.advance bytes :: ·) := by
  cases result <;> rfl

theorem ofWord_advance
    (bytes : Nat)
    (kind : Kind)
    (w : Word) :
    ofWord file kind (w.advance bytes) = (ofWord file kind w).advance bytes := by
  rw [ofWord, Word.stop_advance]
  rfl

theorem ofString_advance
    (bytes : Nat)
    (opening closing : Word)
    (parts : List (List Char)) :
    ofString file (opening.advance bytes) (closing.advance bytes) parts
      = (ofString file opening closing parts).advance bytes := by
  rw [ofString, Word.stop_advance]
  rfl

/-- Words that stand further on are read to the same, further on. -/
theorem scanWords_advance
    (bytes : Nat)
    (reading : Reading)
    (words : List Word) :
    scanWords file (reading.advance bytes) (words.map (Word.advance bytes))
      = advanceAll bytes (scanWords file reading words) := by
  induction words generalizing reading with
  | nil =>
      cases reading <;> rfl
  | cons word words ih =>
      cases reading with
      | plain =>
          rw [List.map_cons, Reading.advance, scanWords, scanWords, Word.text_advance]
          cases WordClass.of word.text with
          | token kind =>
              dsimp only
              rw [advanceAll_map_cons, ← ih, ofWord_advance]
              rfl
          | misspelt keyword =>
              rfl
          | openString =>
              dsimp only
              split
              · rw [advanceAll_map_cons, ← ih, ofWord_advance]
                rfl
              · exact ih (.string word [word.text])
          | openComment =>
              dsimp only
              split
              · exact ih .plain
              · exact ih (.comment word)
          | unrecognised =>
              rfl
      | string opening parts =>
          rw [List.map_cons, Reading.advance, scanWords, scanWords, Word.text_advance]
          split
          · rw [advanceAll_map_cons, ← ih, ofString_advance]
            rfl
          · exact ih (.string opening (word.text :: parts))
      | comment opening =>
          rw [List.map_cons, Reading.advance, scanWords, scanWords, Word.text_advance]
          split
          · exact ih .plain
          · exact ih (.comment opening)

/--
Let a blank stand between two sources. If the first can be read, the whole is
read to its tokens and those of the second, which are further on by the bytes of
the first and the blank; and if the second cannot be read, the whole cannot for
the same cause, further on as well. If the first cannot be read for one of its
words, neither can the whole, for the same cause at the same place.
-/
theorem scan_push_append
    (first second file : String)
    (blank : Char)
    (hblank : isBlank blank = true) :
    (∀ tokens, scan first file = .ok tokens →
      (∀ tokens', scan second file = .ok tokens' →
        scan (first.push blank ++ second) file
          = .ok (tokens ++ tokens'.map (advance (first.push blank).utf8ByteSize))) ∧
      ∀ fault, scan second file = .error fault →
        scan (first.push blank ++ second) file
          = .error (fault.advance (first.push blank).utf8ByteSize)) ∧
    ∀ fault, scan first file = .error fault → fault.cause.IsOfWord →
      scan (first.push blank ++ second) file = .error fault := by
  have hwords := Word.split_push_append first second hblank
  constructor
  · intro tokens hfirst
    have hwhole : scan (first.push blank ++ second) file
        = (advanceAll (first.push blank).utf8ByteSize (scan second file)).map (tokens ++ ·) := by
      rw [scan, hwords, scanWords_append_of_ok hfirst, scan, ← scanWords_advance]
      rfl
    constructor
    · intro tokens' hsecond
      rw [hwhole, hsecond]
      rfl
    · intro fault hsecond
      rw [hwhole, hsecond]
      rfl
  · intro fault hfirst hcause
    rw [scan, hwords]
    exact scanWords_append_of_error hfirst hcause _

/-- The tokens of `/* " */ "ä  b"`: a string whose words stand two blanks apart. -/
def afterComment : List Token :=
  [⟨.string, "\"ä b\"", ⟨⟨8, "shell"⟩, ⟨15, "shell"⟩⟩⟩]

/--
A wide blank of three bytes ends the string, and what stands behind is read as
such: a literal, or a string that nothing closes. A keyword in lower case is
misused even if a comment follows that nothing closes.
-/
theorem scan_push_append_afterComment :
    scan "/* \" */ \"ä  b\"" "shell" = .ok afterComment ∧
      scan ("/* \" */ \"ä  b\"".push '\u3000' ++ "/* */ 5") "shell"
        = .ok (afterComment ++ [⟨.cometLiteral, "5", ⟨⟨24, "shell"⟩, ⟨25, "shell"⟩⟩⟩]) ∧
      scan ("/* \" */ \"ä  b\"".push '\u3000' ++ " \"c") "shell"
        = .error ⟨.unterminatedString "\"c", ⟨19, "shell"⟩⟩ ∧
      scan ("x orbit".push ' ' ++ "/*") "shell"
        = .error ⟨.reservedWordMisuse "orbit" "Orbit", ⟨2, "shell"⟩⟩ := by
  have hfirst : scan "/* \" */ \"ä  b\"" "shell" = .ok afterComment := by
    decide +kernel
  have hwhole (second : String) :=
    (scan_push_append "/* \" */ \"ä  b\"" second "shell" '\u3000' (by decide)).1 _ hfirst
  refine ⟨hfirst, ?_, ?_, ?_⟩
  · exact (hwhole "/* */ 5").1 [⟨.cometLiteral, "5", ⟨⟨6, "shell"⟩, ⟨7, "shell"⟩⟩⟩]
      (by decide +kernel)
  · exact (hwhole " \"c").2 ⟨.unterminatedString "\"c", ⟨1, "shell"⟩⟩ (by decide +kernel)
  · exact (scan_push_append "x orbit" "/*" "shell" ' ' (by decide)).2 _ (by decide +kernel)
      (.inr ⟨_, _, rfl⟩)

end Token
end CometLang
