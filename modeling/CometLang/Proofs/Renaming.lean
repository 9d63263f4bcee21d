import CometLang.Proofs.Adequacy
import CometLang.Proofs.Recasting
import CometLang.Proofs.Relabelling
import Mathlib.Logic.Equiv.Basic

/-!
# Renaming the identifiers of a program

The names of the identifiers in a program are its own business. When they are
replaced, different ones by different ones, the parser does the same as before,
since it looks at kinds only. The tokens then spell the program with the new
names; and what this one does is what the old one does, with the new names in
the frames, in the table and in the fault. All that a user sees without looking
at names is the same: the output, the input that is left, and where a fault is
blamed.
-/

namespace CometLang

open Abstract Derivation

/-- An identifier gets the new name in its place; other tokens are left. -/
def Token.rename
    (f : String → String)
    (t : Token) : Token :=
  if t.kind = .identifier then { t with value := f t.value } else t

namespace Token

variable (f : String → String)

@[simp] theorem kind_rename
    (t : Token) :
    (t.rename f).kind = t.kind := by
  rw [rename]
  split
  · rfl
  · rfl

@[simp] theorem position_rename
    (t : Token) :
    (t.rename f).position = t.position := by
  rw [rename]
  split
  · rfl
  · rfl

theorem recasts_rename
    (hf : Function.Injective f)
    (t : Token) :
    Token.Recasts (.newNames f hf) t (t.rename f) := by
  refine ⟨t.kind_rename f, ?_, ?_, ?_, t.position_rename f⟩
  · intro hkind
    rw [rename, if_pos hkind]
    rfl
  · intro hkind
    rw [rename, if_neg (by simp [hkind])]
  · intro hkind
    rw [rename, if_neg (by simp [hkind])]

end Token

/-- Renaming leaves the production that a record is about. -/
theorem Record.production?_relabel
    (f : Token → Token)
    (record : Record) :
    (record.relabel f).production? = record.production? := by
  cases record <;> rfl

namespace Machine

/-- The second machine is the first with new names in its frames and its table. -/
structure Renamed
    (f : String → String)
    (m m' : Machine) : Prop where
  frames : m'.scopes.frames = m.scopes.frames.map (Frame.rename f)
  history : m'.scopes.history = m.scopes.history.map (Frame.rename f)
  table : m'.table = m.table.rename f (Entry.rename f)
  input : m'.input = m.input
  output : m'.output = m.output
  flushes : m'.flushes = m.flushes

/-- Both runs end well, or with the same fault but for the name in it. -/
inductive RenamedEnd (f : String → String) :
    EStateM.Result Fault Machine Unit → EStateM.Result Fault Machine Unit → Prop
  | ok
      {m m' : Machine}
      (h : Renamed f m m') :
      RenamedEnd f (.ok () m) (.ok () m')
  | error
      {fault fault' : Fault}
      {m m' : Machine}
      (hcause : fault'.cause = fault.cause.rename f)
      (hposition : fault'.position = fault.position)
      (h : Renamed f m m') :
      RenamedEnd f (.error fault m) (.error fault' m')

theorem renamed_of_visible
    {f : String → String}
    {m m' : Machine}
    (h : m'.visible = m.visible.rename f) :
    Renamed f m m' := by
  simp only [visible, World.rename, World.mk.injEq] at h
  obtain ⟨hframes, hclosed, htable, hinput, houtput, hflushes⟩ := h
  refine ⟨hframes, ?_, htable, hinput, houtput, hflushes⟩
  rw [Scopes.history, Scopes.history, hclosed, List.map_reverse]

end Machine

namespace Derivation

/-- The tree of the renamed tokens runs to the renamed end. -/
theorem renamedEnd_run
    {f : String → String}
    (hf : Function.Injective f)
    {tokens : List Token}
    (haccept : (parse tokens).verdict = .accept)
    (settings : Settings)
    {m m' : Machine}
    (hm : m'.visible = m.visible.rename f) :
    Machine.RenamedEnd f (Machine.run settings (parse tokens).tree m)
      (Machine.run settings (parse (tokens.map (Token.rename f))).tree m') := by
  obtain ⟨program, hspells⟩ := exists_program (program_of_accepted haccept)
  have hrun := simulates_parse hspells settings m
  have hrun' := simulates_parse (hspells.recast (Token.recasts_rename f hf)) settings m'
  have heffect := program.recasts_effect (.newNames f hf) settings m.visible
  have hworld : (Recast.newNames f hf).world m.visible = m'.visible := hm.symm
  rw [hworld] at heffect
  rw [heffect, ← hrun] at hrun'
  cases hend : Machine.run settings (parse tokens).tree m with
  | ok a m₁ =>
      cases hend' : Machine.run settings (parse (tokens.map (Token.rename f))).tree m' with
      | ok a' m₂ =>
          rw [hend, hend'] at hrun'
          injection hrun' with _ hvisible
          exact .ok (Machine.renamed_of_visible hvisible)
      | error fault' m₂ =>
          rw [hend, hend'] at hrun'
          cases hrun'
  | error fault m₁ =>
      cases hend' : Machine.run settings (parse (tokens.map (Token.rename f))).tree m' with
      | ok a' m₂ =>
          rw [hend, hend'] at hrun'
          cases hrun'
      | error fault' m₂ =>
          rw [hend, hend'] at hrun'
          injection hrun' with hfault hvisible
          subst hfault
          exact .error rfl rfl (Machine.renamed_of_visible hvisible)

/--
Let the identifiers of any tokens get new names, different ones for different
ones. Then the same productions fire on the same windows and the verdict is the
same. If the tokens are accepted, both trees run to the same end from a fresh
machine, with the same output and the same input left; frames, history and table
have the new names, and so has a fault.
-/
theorem parse_and_run_renamed
    (f : String → String)
    (hf : Function.Injective f)
    (tokens : List Token) :
    (parse (tokens.map (Token.rename f))).verdict = (parse tokens).verdict ∧
      (parse (tokens.map (Token.rename f))).state.records.map Record.production?
        = (parse tokens).state.records.map Record.production? ∧
      parse (tokens.map (Token.rename f)) = (parse tokens).relabel (Token.rename f) ∧
      ((parse tokens).verdict = .accept →
        ∀ (settings : Settings) (input : List UInt8),
          Machine.RenamedEnd f (Machine.run settings (parse tokens).tree (.fresh input))
            (Machine.run settings (parse (tokens.map (Token.rename f))).tree (.fresh input))) := by
  have hparse := parse_map (Token.kind_rename f) tokens
  have hrecords : (parse (tokens.map (Token.rename f))).state.records
      = (parse tokens).state.records.map (Record.relabel (Token.rename f)) := by
    rw [hparse, Outcome.state_relabel, State.records, State.records, State.relabel,
      List.map_reverse]
  refine ⟨?_, ?_, hparse, ?_⟩
  · rw [hparse, Outcome.verdict_relabel]
  · rw [hrecords, List.map_map]
    congr 1
    funext record
    exact record.production?_relabel _
  · intro haccept settings input
    exact renamedEnd_run hf haccept settings rfl

/-- The tokens of `Comet a = 5 ; a = b ;`, in which nothing declares `b`. -/
def strayOperand : List Token :=
  [⟨.comet, "Comet", ⟨⟨0, "s"⟩, ⟨5, "s"⟩⟩⟩,
   ⟨.identifier, "a", ⟨⟨6, "s"⟩, ⟨7, "s"⟩⟩⟩,
   ⟨.assignment, "=", ⟨⟨8, "s"⟩, ⟨9, "s"⟩⟩⟩,
   ⟨.cometLiteral, "5", ⟨⟨10, "s"⟩, ⟨11, "s"⟩⟩⟩,
   ⟨.semicolon, ";", ⟨⟨12, "s"⟩, ⟨13, "s"⟩⟩⟩,
   ⟨.identifier, "a", ⟨⟨14, "s"⟩, ⟨15, "s"⟩⟩⟩,
   ⟨.assignment, "=", ⟨⟨16, "s"⟩, ⟨17, "s"⟩⟩⟩,
   ⟨.identifier, "b", ⟨⟨18, "s"⟩, ⟨19, "s"⟩⟩⟩,
   ⟨.semicolon, ";", ⟨⟨20, "s"⟩, ⟨21, "s"⟩⟩⟩]

/--
When the two names trade places, the program with the stray operand fails where
it failed before, now for want of `a`, and `b` is declared in its stead.
-/
theorem parse_and_run_swapped :
    Function.Injective (Equiv.swap "a" "b") ∧
      (parse strayOperand).verdict = .accept ∧
      (parse (strayOperand.map (Token.rename (Equiv.swap "a" "b")))).verdict = .accept ∧
      Machine.RenamedEnd (Equiv.swap "a" "b")
        (Machine.run {} (parse strayOperand).tree (.fresh []))
        (Machine.run {} (parse (strayOperand.map (Token.rename (Equiv.swap "a" "b")))).tree
          (.fresh [])) := by
  have hinjective := (Equiv.swap "a" "b").injective
  have haccept : (parse strayOperand).verdict = .accept := by
    decide +kernel
  obtain ⟨hverdict, -, -, hruns⟩ := parse_and_run_renamed _ hinjective strayOperand
  exact ⟨hinjective, haccept, hverdict.trans haccept, hruns haccept {} []⟩

end Derivation
end CometLang
