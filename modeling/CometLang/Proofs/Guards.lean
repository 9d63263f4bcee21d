import CometLang.Proofs.Diagnostics
import CometLang.Proofs.StoredValues

/-!
# What guards can read

A guard reads its operands as doubles. Every literal can be read so, and so can
every result of an operation; a value that was received can be read so unless it
has a digit that is not one of ASCII. Since these are all the values there are,
nothing else can make a guard fail for want of a number.

To tell a guard from its fault, one looks at the token that the fault points at:
it is an operand of a comparison if the sign of a comparison stands beside it. In
a program such a sign stands alone between two operands, and on the far sides of
these there is a parenthesis or a connective. So an operand of a comparison is
nothing else at the same time: neither an operand of an arithmetic expression nor
the target of a reception.
-/

namespace CometLang

/-- A parenthesis or a connective, which is what stands around comparisons. -/
def Kind.delimits : Kind → Bool
  | openParen | closeParen | and | or => true
  | _ => false

namespace Kind

variable {k : Kind}

theorem delimits_of_isLogical
    (h : k.isLogical = true) :
    k.delimits = true := by
  cases k <;> simp_all [isLogical, delimits]

theorem isRelational_of_delimits
    (h : k.delimits = true) :
    k.isRelational = false := by
  cases k <;> simp_all [isRelational, delimits]

theorem isRelational_of_isOperand
    (h : k.isOperand = true) :
    k.isRelational = false := by
  cases k <;> simp_all [isRelational, isOperand]

theorem isRelational_of_isArithmetic
    (h : k.isArithmetic = true) :
    k.isRelational = false := by
  cases k <;> simp_all [isRelational, isArithmetic, isAdditive, isMultiplicative]

theorem delimits_of_isArithmetic
    (h : k.isArithmetic = true) :
    k.delimits = false := by
  cases k <;> simp_all [delimits, isArithmetic, isAdditive, isMultiplicative]

end Kind

namespace Sentence

/-- Between its delimiters every sign of a comparison has an operand on either side. -/
def Enclosed (w : List Kind) : Prop :=
  ∀ u r v, w = u ++ r :: v → r.isRelational = true →
    ∃ u' a o o' b v', u = u' ++ [a, o] ∧ v = o' :: b :: v' ∧
      a.delimits = true ∧ b.delimits = true

namespace Enclosed

/-- Nothing is to be enclosed where nothing is compared. -/
theorem of_forall
    {w : List Kind}
    (h : ∀ k ∈ w, k.isRelational = false) :
    Enclosed w := by
  rintro u r v rfl hr
  rw [h r (by simp)] at hr
  cases hr

/-- Two stretches may share what stands between them. -/
theorem overlap
    {w shared w' : List Kind}
    (h : Enclosed (w ++ shared))
    (h' : Enclosed (shared ++ w')) :
    Enclosed (w ++ shared ++ w') := by
  intro u r v heq hr
  rcases List.append_eq_append_iff.1 heq with ⟨u', rfl, rfl⟩ | ⟨v', hw, hv⟩
  · obtain ⟨front, a, o, o', b, back, hfront, rfl, ha, hb⟩ :=
      h' (shared ++ u') r v (by simp) hr
    refine ⟨w ++ front, a, o, o', b, back, ?_, rfl, ha, hb⟩
    rw [List.append_assoc, hfront, List.append_assoc]
  · cases v' with
    | nil =>
        rw [List.append_nil] at hw
        rw [List.nil_append] at hv
        obtain ⟨front, a, o, o', b, back, hfront, rfl, ha, hb⟩ := h' shared r v (by rw [hv]) hr
        refine ⟨w ++ front, a, o, o', b, back, ?_, rfl, ha, hb⟩
        rw [← hw, hfront, List.append_assoc]
    | cons k v' =>
        rw [List.cons_append, List.cons.injEq] at hv
        obtain ⟨rfl, rfl⟩ := hv
        obtain ⟨front, a, o, o', b, back, rfl, rfl, ha, hb⟩ := h u r v' hw hr
        exact ⟨front, a, o, o', b, back ++ w', rfl, rfl, ha, hb⟩

theorem append
    {w w' : List Kind}
    (h : Enclosed w)
    (h' : Enclosed w') :
    Enclosed (w ++ w') := by
  have hshared : Enclosed (w ++ [] ++ w') := overlap (by simpa using h) h'
  simpa using hshared

/-- One comparison between delimiters. -/
theorem comparison
    {u : List Kind}
    (h : Comparison u)
    {a b : Kind}
    (ha : a.delimits = true)
    (hb : b.delimits = true) :
    Enclosed (a :: (u ++ [b])) := by
  obtain ⟨_, r, _, ⟨o, ho, rfl⟩, hr, ⟨o', ho', rfl⟩, rfl⟩ := h
  have hplain {k : Kind} (hk : k.isRelational = false) (hk' : k.isRelational = true) : False := by
    rw [hk] at hk'
    cases hk'
  intro front k back heq hk
  -- Only the third of the five kinds is the sign of a comparison.
  rcases front with _ | ⟨k₁, _ | ⟨k₂, _ | ⟨k₃, _ | ⟨k₄, _ | ⟨k₅, front⟩⟩⟩⟩⟩
  · simp at heq
    exact (hplain (Kind.isRelational_of_delimits ha) (heq.1 ▸ hk)).elim
  · simp at heq
    exact (hplain (Kind.isRelational_of_isOperand ho) (heq.2.1 ▸ hk)).elim
  · simp at heq
    obtain ⟨rfl, rfl, rfl, rfl⟩ := heq
    exact ⟨[], _, _, o', b, [], rfl, rfl, ha, hb⟩
  · simp at heq
    exact (hplain (Kind.isRelational_of_isOperand ho') (heq.2.2.2.1 ▸ hk)).elim
  · simp at heq
    exact (hplain (Kind.isRelational_of_delimits hb) (heq.2.2.2.2.1 ▸ hk)).elim
  · simp at heq

/-- Every comparison of a chain stands between delimiters. -/
theorem chain
    {v : List Kind}
    (h : Joined Comparison Kind.isLogical v)
    {a b : Kind}
    (ha : a.delimits = true)
    (hb : b.delimits = true) :
    Enclosed (a :: (v ++ [b])) := by
  induction h generalizing a with
  | one hu =>
      exact comparison hu ha hb
  | @more u v k hu hk _ ih =>
      have hk' := Kind.delimits_of_isLogical hk
      have hshared : Enclosed ((a :: u) ++ [k] ++ (v ++ [b])) :=
        overlap (comparison hu ha hk') (ih hk')
      simpa using hshared

theorem condition
    {c : List Kind}
    (h : Condition c) :
    Enclosed c := by
  obtain ⟨v, hv, rfl⟩ := h
  exact chain hv rfl rfl

end Enclosed

/-! ## Sentences -/

theorem Joined.not_relational
    {v : List Kind}
    (h : Joined Operand Kind.isArithmetic v) :
    ∀ k ∈ v, k.isRelational = false := by
  induction h with
  | one hu =>
      obtain ⟨k, hk, rfl⟩ := hu
      simpa using Kind.isRelational_of_isOperand hk
  | more hu hk _ ih =>
      obtain ⟨k', hk', rfl⟩ := hu
      rw [List.singleton_append, List.forall_mem_cons, List.forall_mem_cons]
      exact ⟨Kind.isRelational_of_isOperand hk', Kind.isRelational_of_isArithmetic hk, ih⟩

theorem Arithmetic.enclosed
    {v : List Kind}
    (h : Arithmetic v) :
    Enclosed v := by
  obtain ⟨u, k, v, hu, hk, hv, rfl⟩ := h
  exact .of_forall (Joined.more hu hk hv).not_relational

theorem Value.enclosed
    {v : List Kind}
    (h : Value v) :
    Enclosed v := by
  rcases h with hoperand | harithmetic
  · exact .of_forall (Joined.one hoperand).not_relational
  · exact harithmetic.enclosed

theorem Argument.enclosed
    {a : List Kind}
    (h : Argument a) :
    Enclosed a := by
  obtain ⟨k, rfl | rfl, rfl⟩ := h
  · exact .of_forall (by decide)
  · exact .of_forall (by decide)

/-- In a phrase of any category the comparisons are enclosed. -/
theorem Derives.enclosed
    {category : Category}
    {w : List Kind}
    (h : Derives category w) :
    Enclosed w := by
  have hword {k : Kind} {w : List Kind} (hk : k.isRelational = false) (hw : Enclosed w) :
      Enclosed (k :: w) :=
    Enclosed.append (Enclosed.of_forall (by simpa using hk) : Enclosed [k]) hw
  have hend {k : Kind} {w : List Kind} (hk : k.isRelational = false) (hw : Enclosed w) :
      Enclosed (w ++ [k]) :=
    hw.append (.of_forall (by simpa using hk))
  induction h with
  | declaration hv =>
      exact hend rfl (hword rfl (hword rfl (hword rfl hv.enclosed)))
  | assignment hv =>
      exact hend rfl (hword rfl (hword rfl hv.enclosed))
  | transmission ha =>
      exact hword rfl ha.enclosed
  | reception ha =>
      exact hword rfl (hword rfl (hword rfl ha.enclosed))
  | orbit hc _ ih =>
      exact hend rfl ((hword rfl (.condition hc)).append ih)
  | orbitPropel hc _ _ ih ih' =>
      exact hend rfl (((hword rfl (.condition hc)).append ih).append (hword rfl ih'))
  | orbitNavigatePropel hc _ hc' _ _ ih ih' ih'' =>
      exact hend rfl ((((hword rfl (.condition hc)).append ih).append
        ((hword rfl (.condition hc')).append ih')).append (hword rfl ih''))
  | whirl hc _ ih =>
      exact hend rfl ((hword rfl (.condition hc)).append ih)
  | launch _ hc ih =>
      exact hend rfl ((hword rfl ih).append (hword rfl (.condition hc)))
  | block _ ih =>
      exact hend rfl (hword rfl ih)
  | statement _ ih =>
      exact ih
  | arithmetic hw =>
      exact hw.enclosed
  | none =>
      exact .of_forall (by simp)
  | more _ _ ih ih' =>
      exact ih.append ih'

theorem Program.enclosed
    {w : List Kind}
    (h : Program w) :
    Enclosed w := by
  rcases h with rfl | ⟨count, n, u, v, -, hu, hv, rfl⟩ | harithmetic
  · exact .of_forall (by simp)
  · exact hu.enclosed.append hv.enclosed
  · exact harithmetic.enclosed

/-- What stands beside an operand of a comparison is its sign or a delimiter. -/
theorem Enclosed.beside
    {before behind : List Kind}
    {o : Kind}
    (h : Enclosed (before ++ o :: behind))
    (hbeside : Beside Kind.isRelational before behind) :
    (∀ k ∈ before.getLast?, k.isRelational = true ∨ k.delimits = true) ∧
      ∀ k ∈ behind.head?, k.isRelational = true ∨ k.delimits = true := by
  rcases hbeside with ⟨r, hr, hrelational⟩ | ⟨r, hr, hrelational⟩
  · obtain ⟨before, rfl⟩ := List.getLast?_eq_some_iff.1 hr
    obtain ⟨_, _, _, o', b, back, -, hback, -, hb⟩ := h before r (o :: behind) (by simp) hrelational
    rw [List.cons.injEq] at hback
    rw [hback.2]
    simp [hrelational, hb]
  · obtain ⟨behind, rfl⟩ := List.head?_eq_some_iff.1 hr
    obtain ⟨front, a, o', _, _, _, hfront, -, ha, -⟩ :=
      h (before ++ [o]) r behind (by simp) hrelational
    have hbefore : before = front ++ [a] := by
      have hinit := congrArg List.dropLast hfront
      simpa using hinit
    rw [hbefore]
    simp [hrelational, ha]

end Sentence

/-! ## Guards that fail -/

namespace Token

/-- Where no two tokens stand at the same place, a place splits the tokens in one way. -/
theorem split_unique
    {before before' behind behind' : List Token}
    {t t' : Token}
    (h : before ++ t :: behind = before' ++ t' :: behind')
    (hnodup : ((before ++ t :: behind).map position).Nodup)
    (hposition : t.position = t'.position) :
    before = before' ∧ t = t' ∧ behind = behind' := by
  have hmap : before.map position ++ t.position :: behind.map position
      = before'.map position ++ t'.position :: behind'.map position := by
    simpa using congrArg (List.map position) h
  rw [List.map_append, List.map_cons, List.nodup_middle, List.nodup_cons, List.mem_append,
    not_or] at hnodup
  rw [hposition] at hnodup hmap
  obtain ⟨hbefore, -, -⟩ := (List.append_cons_inj_of_notMem hnodup.1.1 hnodup.1.2).1 hmap
  have hlength : before.length = before'.length := by
    simpa using congrArg List.length hbefore
  obtain ⟨rfl, hrest⟩ := List.append_inj h hlength
  rw [List.cons.injEq] at hrest
  exact ⟨rfl, hrest⟩

end Token

namespace Derivation

open Numeral Abstract

/-- An operand of a comparison is to blame only for a good value that cannot be compared. -/
theorem comparand_of_culpable
    {good : String → Prop}
    {before behind : List Kind}
    {kind : Kind}
    {value? : Option String}
    {expected text : String}
    (hsentence : Sentence.Program (before ++ kind :: behind))
    (hbeside : Beside Kind.isRelational before behind)
    (h : Culpable good before kind value? behind (.typeMismatch expected text)) :
    good text ∧ Double.ofText? text = none := by
  obtain ⟨hbefore, hbehind⟩ := hsentence.enclosed.beside hbeside
  cases h with
  | operand _ harithmetic =>
      have hnone {k : Kind} (hk : k.isArithmetic = true) :
          ¬(k.isRelational = true ∨ k.delimits = true) := by
        rw [Kind.isRelational_of_isArithmetic hk, Kind.delimits_of_isArithmetic hk]
        simp
      rcases harithmetic with ⟨k, hlast, hk⟩ | ⟨k, hhead, hk⟩
      · exact absurd (hbefore k hlast) (hnone hk)
      · exact absurd (hbehind k hhead) (hnone hk)
  | comparand _ _ hgood hread =>
      exact ⟨hgood, hread⟩
  | target _ htarget _ =>
      obtain ⟨rest, rfl⟩ := htarget
      have hassignment := hbehind .assignment rfl
      simp [Kind.isRelational, Kind.delimits] at hassignment

/--
Let a program that was read and accepted be run on any input, with any settings.
If the run fails because something is no number, and the fault points at an
operand of a comparison, then its text is a line of the input: a numeral that
reception takes, with a digit that is not one of ASCII.
-/
theorem mismatch_of_comparand
    (tokens : List Token)
    (hread : Token.Read tokens)
    (haccept : (parse tokens).verdict = .accept)
    (settings : Settings)
    (input : List UInt8)
    (expected text : String)
    (position : Position)
    (m' : Machine)
    (hrun : Machine.run settings (parse tokens).tree (.fresh input)
      = .error ⟨.typeMismatch expected text, position⟩ m')
    (before behind : List Token)
    (t : Token)
    (htokens : tokens = before ++ t :: behind)
    (hposition : t.position = position)
    (hbeside : Beside Kind.isRelational (before.map Token.kind) (behind.map Token.kind)) :
    text ∈ offered input ∧ isNumeral text.toList = true ∧ HasForeignDigit text.toList := by
  -- A value is a whole number of ASCII, or a numeral that the input offers.
  have hends := ends_run_parse haccept
    (fun t ht hkind => .inl (isCometLiteral_iff_isWhole.1 (hread.literal t ht hkind)))
    (fun n => .inl (isWhole_wholeText n)) settings
    (Machine.sound_fresh fun text htext hnumeral =>
      (.inr ⟨htext, hnumeral⟩ : IsWhole Char.isDigit text ∨
        text ∈ offered input ∧ isNumeral text.toList = true))
  rw [hrun] at hends
  rcases hends.2 with ⟨before', t', behind', heq, hplace, hculpable⟩ | ⟨-, message, hfault⟩
  · subst htokens
    obtain ⟨rfl, rfl, rfl⟩ := Token.split_unique heq hread.nodup_positions
      (hposition.trans hplace.symm)
    have hsentence := program_of_accepted haccept
    rw [List.map_append, List.map_cons] at hsentence
    obtain ⟨hgood, hunread⟩ := comparand_of_culpable hsentence hbeside hculpable
    rcases hgood with hwhole | ⟨htext, hnumeral⟩
    · have hsome := Double.ofText?_of_isDecimal hwhole.isDecimal
      rw [hunread] at hsome
      cases hsome
    · refine ⟨htext, hnumeral, ?_⟩
      by_contra hforeign
      have hsome := (Double.ofText?_isSome_iff (isNumeral_iff.1 hnumeral)).2 hforeign
      rw [hunread] at hsome
      cases hsome
  · cases hfault

/-- What is received is compared before it is transmitted. -/
def comparedInput : String :=
  "Comet x = 0 ; x = Reception ( \"n\" ) ; Orbit ( x < 5 ) \x7b Transmission ( x ) ; \x7d ;"

/-- The tokens of the program that compares what it receives. -/
def comparedTokens : List Token :=
  (Token.scan comparedInput "shell").toOption.getD []

/-- The operand of the comparison that was received. -/
def comparedOperand : Token :=
  ⟨.identifier, "x", ⟨⟨46, "shell"⟩, ⟨47, "shell"⟩⟩⟩

/--
The program is read. An Arabic digit is received, and then the guard fails at
its first operand, behind which the sign of the comparison stands.
-/
theorem fault_at_comparedOperand :
    Token.scan comparedInput "shell" = .ok comparedTokens ∧
      (Report.ofTokens {} (.fresh [0xd9, 0xa3, 10]) comparedTokens).fault?
        = some ⟨.typeMismatch "a comet (integer)" "٣", comparedOperand.position⟩ ∧
      comparedTokens = comparedTokens.take 14 ++ comparedOperand :: comparedTokens.drop 15 ∧
      ((comparedTokens.drop 15).map Token.kind).head? = some .less := by
  decide +kernel

/-- The guard of the program fails on a line that was received. -/
theorem mismatch_of_comparedOperand :
    (∃ m', Machine.run {} (parse comparedTokens).tree (.fresh [0xd9, 0xa3, 10])
        = .error ⟨.typeMismatch "a comet (integer)" "٣", comparedOperand.position⟩ m') ∧
      "٣" ∈ offered [0xd9, 0xa3, 10] ∧ isNumeral "٣".toList = true ∧
      HasForeignDigit "٣".toList := by
  obtain ⟨hscan, hfault, hsplit, hhead⟩ := fault_at_comparedOperand
  obtain ⟨haccept, m', hrun⟩ := Report.fault?_ofTokens hfault
  refine ⟨⟨m', hrun⟩, ?_⟩
  exact mismatch_of_comparand comparedTokens ⟨comparedInput, "shell", .inl hscan⟩ haccept {}
    [0xd9, 0xa3, 10] _ "٣" _ m' hrun _ _ comparedOperand hsplit rfl (.inr ⟨.less, hhead, rfl⟩)

/-- It is not so that every operand of a comparison can be read. -/
theorem comparand_not_always_read :
    ¬ ∀ tokens, Token.Read tokens → (parse tokens).verdict = .accept →
      ∀ settings input expected text position m',
        Machine.run settings (parse tokens).tree (.fresh input)
          = .error ⟨.typeMismatch expected text, position⟩ m' →
        ∀ before t behind, tokens = before ++ t :: behind → t.position = position →
          ¬ Beside Kind.isRelational (before.map Token.kind) (behind.map Token.kind) := by
  intro hall
  obtain ⟨hscan, hfault, hsplit, hhead⟩ := fault_at_comparedOperand
  obtain ⟨haccept, m', hrun⟩ := Report.fault?_ofTokens hfault
  exact hall comparedTokens ⟨comparedInput, "shell", .inl hscan⟩ haccept {} [0xd9, 0xa3, 10]
    _ _ _ m' hrun _ comparedOperand _ hsplit rfl (.inr ⟨.less, hhead, rfl⟩)

end Derivation
end CometLang
