import CometLang.Proofs.Culprits

/-!
# Faults of accepted programs

Only some faults can end the meaning of a program: those of its names, its
numbers, its loops, its input and its output. This is read off what can be
blamed for a fault. Since an accepted program is run to what it means, no tree
of an accepted program is malformed for a run.
-/

namespace CometLang

/-- A cause that lies in a run, and not in the text or the tree of a program. -/
def Cause.isRuntime : Cause → Bool
  | alreadyDeclared _ | undeclared _ | divisionByZero | typeMismatch _ _
  | loopLimitExceeded _ | inputExhausted | io _ => true
  | unrecognisedToken _ | reservedWordMisuse _ _ | unterminatedString _
  | unterminatedComment | malformedTag _ | malformedExpression _ => false

/-- The change ends well, or with a fault that lies in the run. -/
def Change.Safe
    {α : Type}
    (change : Change α) : Prop :=
  ∀ w fault w', change w = .error fault w' → fault.cause.isRuntime = true

theorem Culpable.isRuntime
    {good : String → Prop}
    {before behind : List Kind}
    {kind : Kind}
    {value? : Option String}
    {cause : Cause}
    (h : Culpable good before kind value? behind cause) :
    cause.isRuntime = true := by
  cases h with
  | target _ _ hcause =>
      rcases hcause with ⟨text, rfl⟩ | rfl | ⟨message, rfl⟩
      · rfl
      · rfl
      · rfl
  | _ =>
      rfl

/-- When any value is good, any world is sound, and any program may be run in it. -/
theorem Abstract.Program.safe_effect
    (settings : Settings)
    (program : Program) :
    Change.Safe (program.effect settings) := by
  intro w fault w' herror
  have hwrites : Writes (fun _ => True) program.pieces := ⟨by simp, by simp⟩
  have hends := program.upholds_effect hwrites settings w (w.sound_of_forall fun _ => trivial)
  rw [herror] at hends
  cases hends.2 with
  | piece _ _ hculpable =>
      exact hculpable.isRuntime
  | output _ hfault =>
      obtain ⟨message, rfl⟩ := hfault
      rfl

namespace Derivation

open Abstract

/--
A run of the tree of an accepted program ends well or with a fault that lies in
the run, whatever machine it starts on and whatever the sink answers.
-/
theorem run_accepted_ok_or_runtime
    (tokens : List Token)
    (h : (parse tokens).verdict = .accept)
    (settings : Settings)
    (m : Machine) :
    (∃ m', Machine.run settings (parse tokens).tree m = .ok () m') ∨
      ∃ fault m',
        Machine.run settings (parse tokens).tree m = .error fault m' ∧
          fault.cause.isRuntime = true := by
  obtain ⟨program, hspells⟩ := exists_program (program_of_accepted h)
  have hrun := simulates_parse hspells settings m
  cases hend : Machine.run settings (parse tokens).tree m with
  | ok a m' =>
      exact .inl ⟨m', rfl⟩
  | error fault m' =>
      rw [hend] at hrun
      exact .inr ⟨fault, m', rfl, program.safe_effect settings _ _ _ hrun.symm⟩

/-- An assignment to a name that was never declared is accepted, and its fault lies in the run. -/
theorem run_accepted_undeclared :
    (parse (Program.items []
        (.assignment ⟨"x", .unknown⟩ (.operand (.literal "5" .unknown)))).spelling).verdict
        = .accept ∧
      ∃ fault m',
        Machine.run {} (parse (Program.items []
          (.assignment ⟨"x", .unknown⟩ (.operand (.literal "5" .unknown)))).spelling).tree
          (.fresh []) = .error fault m' ∧ fault.cause.isRuntime = true := by
  have hspells := (Program.items []
    (.assignment ⟨"x", .unknown⟩ (.operand (.literal "5" .unknown)))).spells_spelling
  have haccept := (Program.exists_carries _ hspells).1
  refine ⟨haccept, ?_⟩
  rcases run_accepted_ok_or_runtime _ haccept {} (.fresh []) with ⟨m', hok⟩ | hfault
  · have hrun := simulates_parse hspells {} (.fresh [])
    rw [hok] at hrun
    cases hrun
  · exact hfault

end Derivation
end CometLang
