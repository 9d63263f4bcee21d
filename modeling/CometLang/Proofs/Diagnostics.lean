import CometLang.Machine.Report
import CometLang.Proofs.Culprits
import CometLang.Proofs.Placement

/-!
# Faults point at words

Every fault of a whole run points at a word of the source, and its cause says
something about this word. If the source cannot be read, it is the word at which
reading went wrong: the word itself, or the one that opened a string or a
comment which nothing closes. If a run fails, one of the tokens is to blame, and
it is not a string; so it is a whole word, and what it is called in the cause is
how the word is spelt.
-/

namespace CometLang

open Text

/-- The fault that a program could not be read for, or that a run of it ended with. -/
def Report.fault? : Report → Option Fault
  | unreadable fault => some fault
  | rejected _ => none
  | finished _ _ => none
  | failed _ _ fault => some fault

/--
What the cause of a fault says about the word that the fault points at. It may
also say that the word is the target of a reception.
-/
inductive Text.Word.Accounts
    (w : Word)
    (isTarget : Prop) :
    Cause → Prop
  | unrecognised :
      Accounts w isTarget (.unrecognisedToken w.toText)
  | misused
      {keyword : String} :
      Accounts w isTarget (.reservedWordMisuse w.toText keyword)
  | openString
      {text : String}
      (hopen : w.text.head? = some '"') :
      Accounts w isTarget (.unterminatedString text)
  | openComment
      (hopen : "/*".toList <+: w.text) :
      Accounts w isTarget .unterminatedComment
  | undeclared :
      Accounts w isTarget (.undeclared w.toText)
  | alreadyDeclared :
      Accounts w isTarget (.alreadyDeclared w.toText)
  | division
      (hword : w.toText = "/") :
      Accounts w isTarget .divisionByZero
  | excess
      {limit : Nat}
      (hword : w.toText = "Whirl" ∨ w.toText = "Launch") :
      Accounts w isTarget (.loopLimitExceeded limit)
  | mismatch
      {expected received : String}
      (hclass : WordClass.of w.text = .token .identifier ∨
        WordClass.of w.text = .token .cometLiteral) :
      Accounts w isTarget (.typeMismatch expected received)
  | exhausted
      (hclass : WordClass.of w.text = .token .identifier)
      (htarget : isTarget) :
      Accounts w isTarget .inputExhausted
  | io
      {message : String}
      (hclass : WordClass.of w.text = .token .identifier)
      (htarget : isTarget) :
      Accounts w isTarget (.io message)

/-- The word is read as a token behind which `=` and the word for a reception follow. -/
def Text.Word.IsTarget
    (source file : String)
    (w : Word) : Prop :=
  ∃ before t behind,
    Token.scan source file = .ok (before ++ t :: behind) ∧ t.position = w.place file ∧
      IsReception (behind.map Token.kind)

/-- The fault points at the word, and its cause accounts for it. -/
def Text.Word.Explains
    (file : String)
    (w : Word)
    (isTarget : Prop)
    (fault : Fault) : Prop :=
  fault.position = w.place file ∧ w.Accounts isTarget fault.cause

/-! ## Sources that cannot be read -/

namespace Token

variable {file : String}

/-- The fault of a source that ends while something is open. -/
def Reading.Open
    (file : String)
    (fault : Fault) :
    Reading → Prop
  | .plain => False
  | .string opening _ => ∃ text, fault = ⟨.unterminatedString text, opening.place file⟩
  | .comment opening => fault = ⟨.unterminatedComment, opening.place file⟩

theorem eq_error_of_map
    {α β : Type}
    {f : α → β}
    {result : Except Fault α}
    {fault : Fault}
    (h : result.map f = .error fault) :
    result = .error fault := by
  cases result with
  | ok a =>
      cases h
  | error fault' =>
      cases h
      rfl

/-- Reading fails at one of the words, or for what was open before them. -/
theorem explains_of_scanWords
    {reading : Reading}
    {words : List Word}
    {fault : Fault}
    (h : scanWords file reading words = .error fault)
    (isTarget : Word → Prop) :
    (∃ w ∈ words, w.Explains file (isTarget w) fault) ∨ reading.Open file fault := by
  induction words generalizing reading with
  | nil =>
      right
      cases reading with
      | plain =>
          cases h
      | string opening parts =>
          cases h
          exact ⟨_, rfl⟩
      | comment opening =>
          cases h
          rfl
  | cons word rest ih =>
      -- A failure among the words behind this one is a failure among all of them.
      have hrest (hplain : scanWords file .plain rest = .error fault) :
          ∃ w ∈ word :: rest, w.Explains file (isTarget w) fault := by
        rcases ih hplain with ⟨w, hw, hexplains⟩ | hopen
        · exact ⟨w, List.mem_cons_of_mem _ hw, hexplains⟩
        · exact hopen.elim
      cases reading with
      | plain =>
          left
          have htells := WordClass.tells_of word.text
          rw [scanWords] at h
          cases hclass : WordClass.of word.text with
          | token kind =>
              rw [hclass] at h
              exact hrest (eq_error_of_map h)
          | misspelt keyword =>
              rw [hclass] at h
              cases h
              exact ⟨word, List.mem_cons_self, rfl, .misused⟩
          | openString =>
              rw [hclass] at h htells
              dsimp only at h
              split at h
              · exact hrest (eq_error_of_map h)
              · rcases ih h with ⟨w, hw, hexplains⟩ | ⟨text, rfl⟩
                · exact ⟨w, List.mem_cons_of_mem _ hw, hexplains⟩
                · exact ⟨word, List.mem_cons_self, rfl, .openString htells⟩
          | openComment =>
              rw [hclass] at h htells
              dsimp only at h
              split at h
              · exact hrest h
              · rcases ih h with ⟨w, hw, hexplains⟩ | hopen
                · exact ⟨w, List.mem_cons_of_mem _ hw, hexplains⟩
                · rw [Reading.Open] at hopen
                  subst hopen
                  exact ⟨word, List.mem_cons_self, rfl, .openComment htells⟩
          | unrecognised =>
              rw [hclass] at h
              cases h
              exact ⟨word, List.mem_cons_self, rfl, .unrecognised⟩
      | string opening parts =>
          rw [scanWords] at h
          split at h
          · exact .inl (hrest (eq_error_of_map h))
          · rcases ih h with ⟨w, hw, hexplains⟩ | hopen
            · exact .inl ⟨w, List.mem_cons_of_mem _ hw, hexplains⟩
            · exact .inr hopen
      | comment opening =>
          rw [scanWords] at h
          split at h
          · exact .inl (hrest h)
          · rcases ih h with ⟨w, hw, hexplains⟩ | hopen
            · exact .inl ⟨w, List.mem_cons_of_mem _ hw, hexplains⟩
            · exact .inr hopen

/-! ## Runs that fail -/

/-- A token that is no string is a whole word, and the word says what kind it is. -/
theorem Scans.exists_word
    {words : List Word}
    {tokens : List Token}
    (h : Scans file words tokens)
    {t : Token}
    (ht : t ∈ tokens)
    (hkind : t.kind ≠ .string) :
    ∃ w ∈ words, t.position = w.place file ∧ t.value = w.toText ∧
      WordClass.of w.text = .token t.kind := by
  induction h with
  | none =>
      cases ht
  | word hclass _ ih =>
      rcases List.mem_cons.1 ht with rfl | hrest
      · exact ⟨_, List.mem_cons_self, rfl, rfl, hclass⟩
      · obtain ⟨w, hw, hword⟩ := ih hrest
        exact ⟨w, List.mem_cons_of_mem _ hw, hword⟩
  | closedString _ _ _ ih =>
      rcases List.mem_cons.1 ht with rfl | hrest
      · exact absurd rfl hkind
      · obtain ⟨w, hw, hword⟩ := ih hrest
        exact ⟨w, List.mem_cons_of_mem _ hw, hword⟩
  | string _ _ _ _ _ ih =>
      rcases List.mem_cons.1 ht with rfl | hrest
      · exact absurd rfl hkind
      · obtain ⟨w, hw, hword⟩ := ih hrest
        exact ⟨w, by simp [hw], hword⟩
  | closedComment _ _ _ _ ih =>
      obtain ⟨w, hw, hword⟩ := ih ht
      exact ⟨w, List.mem_cons_of_mem _ hw, hword⟩
  | comment _ _ _ _ _ ih =>
      obtain ⟨w, hw, hword⟩ := ih ht
      exact ⟨w, by simp [hw], hword⟩

end Token

/-- The words for what a run can be blamed on have one spelling each. -/
theorem Kind.word_of_mem :
    ∀ entry ∈ reserved ++ operators,
      (entry.2 = .slash → entry.1 = "/") ∧ (entry.2 = .whirl → entry.1 = "Whirl") ∧
        (entry.2 = .launch → entry.1 = "Launch") := by
  decide +kernel

namespace WordClass

variable {text : List Char}

/-- What is neither a literal nor a name stands in the tables. -/
theorem mem_of_token
    {kind : Kind}
    (h : of text = .token kind)
    (hkind : kind.isOperand = false) :
    (String.ofList text, kind) ∈ Kind.reserved ++ Kind.operators := by
  have htells := tells_of text
  rw [h] at htells
  rcases htells with hmem | ⟨rfl, -⟩ | ⟨rfl, -⟩
  · exact hmem
  · cases hkind
  · cases hkind

theorem eq_slash
    (h : of text = .token .slash) :
    String.ofList text = "/" :=
  (Kind.word_of_mem _ (mem_of_token h rfl)).1 rfl

theorem eq_loop
    {kind : Kind}
    (h : of text = .token kind)
    (hkind : kind = .whirl ∨ kind = .launch) :
    String.ofList text = "Whirl" ∨ String.ofList text = "Launch" := by
  rcases hkind with rfl | rfl
  · exact .inl ((Kind.word_of_mem _ (mem_of_token h rfl)).2.1 rfl)
  · exact .inr ((Kind.word_of_mem _ (mem_of_token h rfl)).2.2 rfl)

end WordClass

/-- Nothing that is blamed for a fault is a string. -/
theorem Culpable.kind_ne_string
    {good : String → Prop}
    {before behind : List Kind}
    {kind : Kind}
    {value? : Option String}
    {cause : Cause}
    (h : Culpable good before kind value? behind cause) :
    kind ≠ .string := by
  rintro rfl
  cases h with
  | undeclared hkind _ =>
      cases hkind
  | alreadyDeclared hkind _ =>
      cases hkind
  | division hkind =>
      cases hkind
  | excess hkind =>
      rcases hkind with hkind | hkind
      · cases hkind
      · cases hkind
  | operand hkind _ =>
      cases hkind
  | comparand hkind _ _ _ =>
      cases hkind
  | target hkind _ _ =>
      cases hkind

/-- A value is a name or a literal. -/
theorem Kind.eq_of_isOperand
    {kind : Kind}
    (h : kind.isOperand = true) :
    kind = .identifier ∨ kind = .cometLiteral := by
  cases kind <;> simp_all [isOperand]

/-- What is known of the token that is to blame is known of its word. -/
theorem Culpable.accounts
    {good : String → Prop}
    {before behind : List Kind}
    {kind : Kind}
    {cause : Cause}
    {w : Word}
    (h : Culpable good before kind (some w.toText) behind cause)
    (hclass : WordClass.of w.text = .token kind)
    {isTarget : Prop}
    (htarget : IsReception behind → isTarget) :
    w.Accounts isTarget cause := by
  have hoperand (hkind : kind.isOperand = true) :
      WordClass.of w.text = .token .identifier ∨ WordClass.of w.text = .token .cometLiteral := by
    rcases Kind.eq_of_isOperand hkind with rfl | rfl
    · exact .inl hclass
    · exact .inr hclass
  cases h with
  | undeclared _ hvalue =>
      cases hvalue
      exact .undeclared
  | alreadyDeclared _ hvalue =>
      cases hvalue
      exact .alreadyDeclared
  | division hkind =>
      subst hkind
      exact .division (WordClass.eq_slash hclass)
  | excess hkind =>
      exact .excess (WordClass.eq_loop hclass hkind)
  | operand hkind _ =>
      exact .mismatch (hoperand hkind)
  | comparand hkind _ _ _ =>
      exact .mismatch (hoperand hkind)
  | target hkind hbehind hcause =>
      subst hkind
      rcases hcause with ⟨text, rfl⟩ | rfl | ⟨message, rfl⟩
      · exact .mismatch (.inl hclass)
      · exact .exhausted hclass (htarget hbehind)
      · exact .io hclass (htarget hbehind)

/-- A run of a source fails at one of the words of the source. -/
theorem explains_of_run
    {settings : Settings}
    (houtput : settings.sink.TakesAll)
    {source file : String}
    {tokens : List Token}
    (hscan : Token.scan source file = .ok tokens)
    (haccept : (Derivation.parse tokens).verdict = .accept)
    {m m' : Machine}
    {fault : Fault}
    (hrun : Machine.run settings (Derivation.parse tokens).tree m = .error fault m') :
    ∃ w ∈ Word.split source, w.Explains file (w.IsTarget source file) fault := by
  have hends := Derivation.ends_run_parse haccept (fun _ _ _ => trivial) (fun _ => trivial)
    settings (m.visible.sound_of_forall fun _ => trivial)
  rw [hrun] at hends
  rcases hends.2 with ⟨before, t, behind, rfl, hposition, hculpable⟩ | ⟨hsink, -⟩
  · obtain ⟨w, hw, hplace, hvalue, hclass⟩ := (Token.scans_of_scanWords hscan).exists_word
      (by simp) hculpable.kind_ne_string
    rw [hvalue] at hculpable
    refine ⟨w, hw, hposition.symm.trans hplace, hculpable.accounts hclass ?_⟩
    intro hreception
    exact ⟨before, t, behind, hscan, hplace, hreception⟩
  · exact absurd houtput hsink

/-! ## Whole runs -/

namespace Report

/-- A fault of a program that was read comes from running it. -/
theorem fault?_ofTokens
    {settings : Settings}
    {m : Machine}
    {tokens : List Token}
    {fault : Fault}
    (h : (ofTokens settings m tokens).fault? = some fault) :
    (Derivation.parse tokens).verdict = .accept ∧
      ∃ m', Machine.run settings (Derivation.parse tokens).tree m = .error fault m' := by
  rw [ofTokens] at h
  split at h
  · cases h
  · next haccept =>
      split at h
      · cases h
      · next fault' m' hrun =>
          cases h
          exact ⟨haccept, m', hrun⟩

/-- A fault comes from reading the source, or from running the program that was read. -/
theorem fault?_ofSource
    {settings : Settings}
    {source file : String}
    {input : List UInt8}
    {fault : Fault}
    (h : (ofSource settings source file input).fault? = some fault) :
    Token.scan source file = .error fault ∨
      ∃ tokens m', Token.scan source file = .ok tokens ∧
        (Derivation.parse tokens).verdict = .accept ∧
        Machine.run settings (Derivation.parse tokens).tree (.fresh input)
          = .error fault m' := by
  rw [ofSource] at h
  cases hscan : Token.scan source file with
  | error fault' =>
      rw [hscan] at h
      cases h
      exact .inl rfl
  | ok tokens =>
      rw [hscan] at h
      obtain ⟨haccept, m', hrun⟩ := fault?_ofTokens h
      exact .inr ⟨tokens, m', rfl, haccept, hrun⟩

/--
Let a source be run from the start, with an output that takes everything. If the
run ends with a fault, then the fault names the given file, or that of a program
which was typed, and its offset is that of a word of the source. The cause says
of this word what it should.
-/
theorem fault_points_at_word
    (settings : Settings)
    (houtput : settings.sink.TakesAll)
    (source : String)
    (file? : Option String)
    (input : List UInt8)
    (fault : Fault)
    (h : (ofSource settings source (file?.getD Token.unnamed) input).fault? = some fault) :
    fault.position.file = file?.getD "shell" ∧
      ∃ w : Word, w.StandsIn source.toList ∧ w.offset = fault.position.offset ∧
        w.Accounts (w.IsTarget source (file?.getD Token.unnamed)) fault.cause := by
  have hexplains : ∃ w ∈ Word.split source, w.Explains (file?.getD Token.unnamed)
      (w.IsTarget source (file?.getD Token.unnamed)) fault := by
    rcases fault?_ofSource h with hscan | ⟨tokens, m', hscan, haccept, hrun⟩
    · rcases Token.explains_of_scanWords hscan (Word.IsTarget source _) with hword | hopen
      · exact hword
      · exact hopen.elim
    · exact explains_of_run houtput hscan haccept hrun
  obtain ⟨w, hw, hposition, haccounts⟩ := hexplains
  rw [hposition]
  exact ⟨rfl, w, Word.mem_split_iff.1 hw, rfl, haccounts⟩

/-- A comment, a loop that tests last, and in it a reception with a prompt of two words. -/
def askingLoop : String :=
  "/* zählt */ Comet x = 5 ; Launch \x7b x = Reception ( \"x ?\" ) ; \x7d Whirl ( x > 0 ) ;"

/--
The second line that the loop reads is no text. The fault points at the word `x`
behind the brace, which is the target of the reception.
-/
theorem fault_points_at_target :
    (ofSource {} askingLoop "shell" [55, 10, 255, 10]).fault?
        = some ⟨.io "stream did not contain valid UTF-8", ⟨36, "shell"⟩⟩ ∧
      ∃ w : Word, w.StandsIn askingLoop.toList ∧ w.offset = 36 ∧
        w.Accounts (w.IsTarget askingLoop "shell") (.io "stream did not contain valid UTF-8") := by
  have hfault : (ofSource {} askingLoop "shell" [55, 10, 255, 10]).fault?
      = some ⟨.io "stream did not contain valid UTF-8", ⟨36, "shell"⟩⟩ := by
    decide +kernel
  exact ⟨hfault, (fault_points_at_word {} (fun _ _ _ => rfl) askingLoop none _ _ hfault).2⟩

end Report
end CometLang
