import CometLang.Proofs.Atomicity
import CometLang.Proofs.TagReading

/-!
# What strings stand for

A string of a program is made of words, from one that starts with a quote to one
that ends with a quote; these are never the same quote. Between the two there may
be any characters, and further quotes among them.

What the string stands for is written without any quote at all, so it is what
stands between the first and the last quote just where that holds no quote itself.
This is what a transmission of the string writes, with a newline behind it, and
what a reception asks with.
-/

namespace CometLang

open Text

namespace Token

/-! ## The words of a string -/

theorem exists_inner_of_isClosedString
    {cs : List Char}
    (h : isClosedString cs = true) :
    ∃ inner, cs = '"' :: inner ++ ['"'] := by
  simp only [isClosedString, Bool.and_eq_true, decide_eq_true_eq, beq_iff_eq] at h
  obtain ⟨⟨hlength, hhead⟩, hlast⟩ := h
  obtain ⟨rest, rfl⟩ := List.head?_eq_some_iff.1 hhead
  have hrest : rest ≠ [] := by
    rintro rfl
    simp at hlength
  rw [List.getLast?_cons_of_ne_nil hrest] at hlast
  obtain ⟨inner, rfl⟩ := List.getLast?_eq_some_iff.1 hlast
  exact ⟨inner, rfl⟩

theorem ne_string_of_token
    {text : List Char}
    {kind : Kind}
    (h : WordClass.of text = .token kind) :
    kind ≠ .string := by
  rintro rfl
  have htells := WordClass.tells_of text
  rw [h] at htells
  rcases htells with hmem | ⟨hkind, -⟩ | ⟨hkind, -⟩
  · have htag := (Kind.spelling_of_mem _ hmem).1
    cases htag
  · cases hkind
  · cases hkind

/-- The value is that of neighbouring words joined by spaces, from quote to quote. -/
structure IsStringOf
    (t : Token)
    (words : List Word) : Prop where
  stretch :
    ∃ before part behind,
      words = before ++ part ++ behind ∧
        t.value.toList = joinWords (part.map Word.text)
  closed : isClosedString t.value.toList = true

theorem IsStringOf.append
    {t : Token}
    {words : List Word}
    (h : t.IsStringOf words)
    (front : List Word) :
    t.IsStringOf (front ++ words) := by
  obtain ⟨⟨before, part, behind, rfl, hvalue⟩, hclosed⟩ := h
  exact ⟨⟨front ++ before, part, behind, by simp, hvalue⟩, hclosed⟩

/-- Every string among the tokens is one from quote to quote. -/
theorem Scans.isStringOf
    {file : String}
    {words : List Word}
    {tokens : List Token}
    (h : Scans file words tokens)
    {t : Token}
    (ht : t ∈ tokens)
    (hkind : t.kind = .string) :
    t.IsStringOf words := by
  induction h with
  | none =>
      cases ht
  | @word kind word rest tokens hclass _ ih =>
      rcases List.mem_cons.1 ht with rfl | ht
      · exact absurd hkind (ne_string_of_token hclass)
      · exact (ih ht).append [word]
  | @closedString word rest tokens _ hclosed _ ih =>
      rcases List.mem_cons.1 ht with rfl | ht
      · have hvalue : (ofWord file .string word).value.toList = word.text :=
          String.toList_ofList
        refine ⟨⟨[], [word], rest, rfl, ?_⟩, ?_⟩
        · simpa [joinWords] using hvalue
        · rwa [hvalue]
      · exact (ih ht).append [word]
  | @string opening closing middle rest tokens hclass _ _ hclosing _ ih =>
      rcases List.mem_cons.1 ht with rfl | ht
      · have hopening := WordClass.tells_of opening.text
        rw [hclass] at hopening
        have hvalue : (ofString file opening closing
              ((opening :: middle ++ [closing]).map Word.text).reverse).value.toList
            = joinWords ((opening :: middle ++ [closing]).map Word.text) := by
          rw [ofString, stringText, String.toList_ofList, List.reverse_reverse]
        refine ⟨⟨[], opening :: middle ++ [closing], rest, by simp, hvalue⟩, ?_⟩
        rw [hvalue]
        simpa using isClosedString_joinWords hopening hclosing (middle.map Word.text)
      · simpa using (ih ht).append (opening :: middle ++ [closing])
  | @closedComment word rest tokens _ _ _ _ ih =>
      exact (ih ht).append [word]
  | @comment opening closing middle rest tokens _ _ _ _ _ ih =>
      simpa using (ih ht).append (opening :: middle ++ [closing])

/-! ## Without quotes -/

/-- The first quote and the last one are dropped, and those between them as well. -/
theorem toList_text
    {t : Token}
    {inner : List Char}
    (hkind : t.kind = .string)
    (hvalue : t.value.toList = '"' :: inner ++ ['"']) :
    t.text.toList = inner.filter (· != '"') := by
  have htext : t.text.toList = t.value.toList.filter (· != '"') := by
    rw [text, hkind]
    exact String.toList_ofList
  rw [htext, hvalue]
  simp

theorem filter_quote_eq_self_iff
    (inner : List Char) :
    inner.filter (· != '"') = inner ↔ '"' ∉ inner := by
  rw [List.filter_eq_self]
  constructor
  · intro hall hmem
    have hne := hall _ hmem
    cases hne
  · intro hquote c hc
    rw [bne_iff_ne]
    rintro rfl
    exact hquote hc

end Token

/-! ## What is written -/

namespace Machine

open Action Evaluation

section

variable {settings : Settings} {t io string : Tree} {token : Token}

theorem argumentText?_of_string
    (hstring : io.child? .string = some string)
    (htoken : leafToken string = .ok token) :
    argumentText? io = pure (some token.text) := by
  rw [argumentText?, hstring]
  dsimp only
  rw [htoken]
  rfl

/-- A transmission of a string is the writing of what the string stands for. -/
theorem runTransmission_of_string
    (hio : t.child? .ioStmt = some io)
    (hstring : io.child? .string = some string)
    (htoken : leafToken string = .ok token) :
    runTransmission settings t = write settings (token.text ++ "\n") .unknown := by
  rw [runTransmission, partOf, hio, ofExcept_ok_bind, argumentText?_of_string hstring htoken]
  rfl

/-- A reception whose target is bound asks with what the string stands for. -/
theorem runReception_of_string
    {child : Tree}
    {target : Token}
    {value : String}
    {m : Machine}
    (hchild : t.child? .identifier = some child)
    (htarget : leafToken child = .ok target)
    (hvalue : m.scopes.resolve target.value target.position = .ok value)
    (hio : t.child? .ioStmt = some io)
    (hstring : io.child? .string = some string)
    (htoken : leafToken string = .ok token) :
    runReception settings t m = askFor settings target token.text m := by
  have hbound : ofScopes (·.resolve target.value target.position) m = .ok value m := by
    rw [ofScopes, hvalue]
  rw [runReception, partOf, hchild, ofExcept_ok_bind, htarget, ofExcept_ok_bind, bind_of_ok hbound,
    partOf, hio, ofExcept_ok_bind, argumentText?_of_string hstring htoken]
  rfl

end

/--
Let a string be among the tokens of a program. Its value is that of neighbouring
words, joined by single spaces, and it is some text between two quotes. What it
stands for is that text without the quotes in it, so it is that very text if and
only if there are none. If the output takes everything, a transmission of the string
writes this and a newline, and a reception for a bound name writes this and no more.
-/
theorem string_written_without_quotes
    (source file : String)
    (tokens : List Token)
    (hscan : Token.scan source file = .ok tokens)
    (token : Token)
    (hmem : token ∈ tokens)
    (hkind : token.kind = .string) :
    ∃ inner,
      token.value.toList = '"' :: inner ++ ['"'] ∧
        (∃ before part behind,
          Word.split source = before ++ part ++ behind ∧
            token.value.toList = joinWords (part.map Word.text)) ∧
        token.text.toList = inner.filter (· != '"') ∧
        (token.text.toList = inner ↔ '"' ∉ inner) ∧
        ∀ settings t io string m,
          settings.sink.TakesAll → t.child? .ioStmt = some io →
            io.child? .string = some string → leafToken string = .ok token →
              (t.form? = some .transmissionStmt →
                run settings t m
                  = .ok () { m with output := m.output ++ (token.text ++ "\n").toUTF8.toList }) ∧
              (t.form? = some .receptionStmt →
                ∀ target, t.HasTarget target → (m.scopes.lookup? target.value).isSome = true →
                  ((run settings t).after m).output = m.output ++ token.text.toUTF8.toList) := by
  obtain ⟨hstretch, hclosed⟩ := (Token.scans_of_scanWords hscan).isStringOf hmem hkind
  obtain ⟨inner, hvalue⟩ := Token.exists_inner_of_isClosedString hclosed
  have htext := Token.toList_text hkind hvalue
  refine ⟨inner, hvalue, hstretch, htext, ?_, ?_⟩
  · rw [htext]
    exact Token.filter_quote_eq_self_iff inner
  · intro settings t io string m hall hio hstring htoken
    obtain ⟨label, children⟩ := t
    constructor
    · intro hform
      cases label <;> cases hform
      rw [run, runTransmission_of_string hio hstring htoken]
      exact write_of_takesAll _ _ m hall
    · rintro hform target ⟨child, hchild, htarget⟩ hbound
      cases label <;> cases hform
      obtain ⟨value, hlookup⟩ := Option.isSome_iff_exists.1 hbound
      have hresolve : m.scopes.resolve target.value target.position = .ok value := by
        rw [Scopes.resolve, hlookup]
      rw [run, after, runReception_of_string hchild htarget hresolve hio hstring htoken, ← after,
        output_after_askFor]
      rw [after_of_ok (write_of_takesAll token.text target.position m hall)]

/-- The string `"a"b"`, as it stands in a program. -/
def threeQuotes : Token :=
  ⟨.string, "\"a\"b\"", ⟨⟨15, "shell"⟩, ⟨20, "shell"⟩⟩⟩

/-- The tokens of `Transmission ( "a"b" ) ;` -/
def threeQuotesTokens : List Token :=
  [⟨.transmission, "Transmission", ⟨⟨0, "shell"⟩, ⟨12, "shell"⟩⟩⟩,
   ⟨.openParen, "(", ⟨⟨13, "shell"⟩, ⟨14, "shell"⟩⟩⟩,
   threeQuotes,
   ⟨.closeParen, ")", ⟨⟨21, "shell"⟩, ⟨22, "shell"⟩⟩⟩,
   ⟨.semicolon, ";", ⟨⟨23, "shell"⟩, ⟨24, "shell"⟩⟩⟩]

theorem scan_threeQuotes :
    Token.scan "Transmission ( \"a\"b\" ) ;" "shell" = .ok threeQuotesTokens := by
  decide +kernel

/-- The part of `Transmission ( "a"b" ) ;` that is looked at. -/
def threeQuotesStatement : Tree :=
  .node (.nonterminal .transmissionStmt)
    [.node (.nonterminal .ioStmt) [.node (.nonterminal .string) [.leaf threeQuotes]]]

/-- A string with three quotes is written without the one in the middle. -/
theorem threeQuotes_written_without_quotes :
    Token.scan "Transmission ( \"a\"b\" ) ;" "shell" = .ok threeQuotesTokens ∧
      threeQuotes.value.toList = ['"', 'a', '"', 'b', '"'] ∧ threeQuotes.text = "ab" ∧
      run {} threeQuotesStatement (fresh [])
        = .ok () { fresh [] with output := #[97, 98, 10] } := by
  obtain ⟨inner, -, -, -, -, hwritten⟩ :=
    string_written_without_quotes _ _ _ scan_threeQuotes threeQuotes (by decide) rfl
  have hrun := (hwritten {} threeQuotesStatement _ _ (fresh []) (fun _ _ _ => rfl) rfl rfl rfl).1 rfl
  have hbytes : (fresh []).output ++ (threeQuotes.text ++ "\n").toUTF8.toList = #[97, 98, 10] := by
    decide +kernel
  rw [hbytes] at hrun
  exact ⟨scan_threeQuotes, by decide, by decide, hrun⟩

/-- What a string stands for is not always all that stands between its first and last quote. -/
theorem string_not_always_written_between_quotes :
    ¬ ∀ source file tokens, Token.scan source file = .ok tokens →
      ∀ token ∈ tokens, token.kind = .string →
        ∀ inner, token.value.toList = '"' :: inner ++ ['"'] → token.text.toList = inner := by
  intro hall
  have htext : threeQuotes.text.toList = ['a', '"', 'b'] :=
    hall _ _ _ scan_threeQuotes threeQuotes (by decide) rfl _ rfl
  revert htext
  decide

end Machine
end CometLang
