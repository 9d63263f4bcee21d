import CometLang.Proofs.Adequacy
import CometLang.Proofs.Recasting
import CometLang.Proofs.Relabelling
import CometLang.Proofs.TagReading

/-!
# Programs read from their tags

A program can be read from its source or from the tags of its tokens. Both ways
lead to tokens that differ only in what neither the parser nor a run looks at:
the place of a token, and the spelling of a token whose kind is fixed. When
these are taken away, the tokens are the same. The parse of the bare tokens is
the parse of the others made bare, and the program that they spell is the other
program without its positions. So the two parses show the same, and the two runs
end in the same way but for the place that is blamed.
-/

namespace CometLang

open Abstract Derivation

/-! ## Bare tokens -/

/-- The token as its tag names it, standing nowhere. -/
def Token.bare (t : Token) : Token :=
  t.respelt ⟨.unknown, .unknown⟩

theorem Token.Returns.bare_eq
    {t t' : Token}
    (h : t.Returns t') :
    t'.bare = t.bare := by
  rw [bare, bare, respelt, respelt, h.kind, h.value]
  cases t.kind.lexeme? <;> rfl

theorem map_bare_of_returns
    {tokens tokens' : List Token}
    (h : List.Forall₂ Token.Returns tokens tokens') :
    tokens'.map Token.bare = tokens.map Token.bare := by
  induction h with
  | nil =>
      rfl
  | cons hfirst _ ih =>
      rw [List.map_cons, List.map_cons, hfirst.bare_eq, ih]

/-- A bare token has its name, and no position. -/
theorem Token.recasts_bare
    (t : Token) :
    Token.Recasts .unplaced t t.bare := by
  refine ⟨rfl, ?_, ?_, ?_, rfl⟩
  · intro hkind
    rw [bare, respelt, hkind]
    rfl
  · intro hkind
    rw [bare, respelt, hkind]
    rfl
  · intro hkind
    rw [bare, respelt, hkind]
    rfl

/-! ## Two parses -/

/-- Tokens that are the same when bare are parsed to the same when bare. -/
theorem Derivation.relabel_parse_of_bare
    {tokens tokens' : List Token}
    (h : tokens'.map Token.bare = tokens.map Token.bare) :
    (parse tokens').relabel Token.bare = (parse tokens).relabel Token.bare := by
  have hkind (t : Token) : t.bare.kind = t.kind := rfl
  rw [← parse_map hkind, ← parse_map hkind, h]

/-! ## Two runs -/

/-- Both runs end well or for the same cause, and leave the same world. -/
inductive Machine.SameEnd :
    EStateM.Result Fault Machine Unit → EStateM.Result Fault Machine Unit → Prop
  | ok
      {m m' : Machine}
      (h : m.visible = m'.visible) :
      SameEnd (.ok () m) (.ok () m')
  | error
      {fault fault' : Fault}
      {m m' : Machine}
      (hcause : fault.cause = fault'.cause)
      (h : m.visible = m'.visible) :
      SameEnd (.error fault m) (.error fault' m')

/-- A run of the tree does what the program means without its positions. -/
theorem Derivation.recastEnd_run
    {program : Program}
    {tokens : List Token}
    (h : program.Spells tokens)
    (settings : Settings)
    (m : Machine) :
    Change.recastEnd .unplaced (Action.seen id (Machine.run settings (parse tokens).tree m))
      = (program.recast .unplaced).effect settings m.visible := by
  have heffect := program.recasts_effect .unplaced settings m.visible
  rw [Recast.world_unplaced] at heffect
  rw [simulates_parse h settings m, heffect]

/-- Programs that are the same when bare run to the same end. -/
theorem Derivation.sameEnd_of_bare
    {tokens tokens' : List Token}
    (h : tokens'.map Token.bare = tokens.map Token.bare)
    (haccept : (parse tokens).verdict = .accept)
    (haccept' : (parse tokens').verdict = .accept)
    (settings : Settings)
    (m : Machine) :
    Machine.SameEnd (Machine.run settings (parse tokens).tree m)
      (Machine.run settings (parse tokens').tree m) := by
  obtain ⟨program, hspells⟩ := exists_program (program_of_accepted haccept)
  obtain ⟨program', hspells'⟩ := exists_program (program_of_accepted haccept')
  -- The two programs need not be compared: both are run from the same bare tokens.
  have hbare := simulates_parse (hspells.recast Token.recasts_bare) settings m
  have hbare' := simulates_parse (hspells'.recast Token.recasts_bare) settings m
  rw [h] at hbare'
  have hends : Change.recastEnd .unplaced
        (Action.seen id (Machine.run settings (parse tokens).tree m))
      = Change.recastEnd .unplaced
        (Action.seen id (Machine.run settings (parse tokens').tree m)) := by
    rw [recastEnd_run hspells, recastEnd_run hspells', ← hbare, ← hbare']
  cases hrun : Machine.run settings (parse tokens).tree m with
  | ok a m₁ =>
      cases hrun' : Machine.run settings (parse tokens').tree m with
      | ok a' m₂ =>
          rw [hrun, hrun'] at hends
          injection hends with _ hworld
          rw [Recast.world_unplaced, Recast.world_unplaced] at hworld
          exact .ok hworld
      | error fault' m₂ =>
          rw [hrun, hrun'] at hends
          cases hends
  | error fault m₁ =>
      cases hrun' : Machine.run settings (parse tokens').tree m with
      | ok a' m₂ =>
          rw [hrun, hrun'] at hends
          cases hends
      | error fault' m₂ =>
          rw [hrun, hrun'] at hends
          injection hends with hfault hworld
          injection hfault with hcause
          rw [Recast.world_unplaced, Recast.world_unplaced] at hworld
          simp only [Recast.unplaced, Cause.rename_id] at hcause
          exact .error hcause hworld

namespace Token

/--
The tags of a program, joined by single spaces, are read to as many tokens of
the same kinds and tags. The two lists of tokens get the same verdict, the same
trace and the same tree as text; and if they are accepted, their trees run to
the same end on every machine.
-/
theorem readTags_agrees_with_scan
    (source file : String)
    (tokens : List Token)
    (h : scan source file = .ok tokens)
    (file' : String) :
    ∃ tokens',
      readTags (" ".intercalate (tokens.map tag)) file' = .ok tokens' ∧
        List.Forall₂ Returns tokens tokens' ∧
        (parse tokens').verdict = (parse tokens).verdict ∧
        (parse tokens').state.records.map Record.text
          = (parse tokens).state.records.map Record.text ∧
        (parse tokens').tree.text = (parse tokens).tree.text ∧
        ((parse tokens).verdict = .accept →
          ∀ settings m,
            Machine.SameEnd (Machine.run settings (parse tokens).tree m)
              (Machine.run settings (parse tokens').tree m)) := by
  obtain ⟨tokens', hread, hreturns⟩ := exists_readTags h file'
  have hbare := map_bare_of_returns hreturns
  have hparse := relabel_parse_of_bare hbare
  have htag (t : Token) : t.bare.tag = t.tag := t.tag_respelt _
  have hverdict : (parse tokens').verdict = (parse tokens).verdict := by
    rw [← Outcome.verdict_relabel bare, hparse, Outcome.verdict_relabel]
  have hstate : (parse tokens').state.relabel bare = (parse tokens).state.relabel bare := by
    rw [← Outcome.state_relabel, hparse, Outcome.state_relabel]
  refine ⟨tokens', hread, hreturns, hverdict, ?_, ?_, ?_⟩
  · rw [← State.text_records_relabel htag, hstate, State.text_records_relabel htag]
  · rw [Tree.text, Tree.text, Outcome.tree, Outcome.tree, ← Tree.textAt_relabel htag,
      ← State.tree_relabel, hstate, State.tree_relabel, Tree.textAt_relabel htag]
  · intro haccept settings m
    exact sameEnd_of_bare hbare haccept (hverdict.trans haccept) settings m

/-- The tokens of `transmission ( "  a" ) ;` -/
def lowerCase : List Token :=
  [⟨.transmission, "transmission", ⟨⟨0, "a.txt"⟩, ⟨12, "a.txt"⟩⟩⟩,
   ⟨.openParen, "(", ⟨⟨13, "a.txt"⟩, ⟨14, "a.txt"⟩⟩⟩,
   ⟨.string, "\" a\"", ⟨⟨15, "a.txt"⟩, ⟨20, "a.txt"⟩⟩⟩,
   ⟨.closeParen, ")", ⟨⟨21, "a.txt"⟩, ⟨22, "a.txt"⟩⟩⟩,
   ⟨.semicolon, ";", ⟨⟨23, "a.txt"⟩, ⟨24, "a.txt"⟩⟩⟩]

/--
A keyword in lower case and a string that starts with a lone quote: both are
read back from the tags, and the program runs to the same end.
-/
theorem readTags_agrees_for_lowerCase :
    scan "transmission ( \"  a\" ) ;" "a.txt" = .ok lowerCase ∧
      (parse lowerCase).verdict = .accept ∧
      ∃ tokens',
        readTags "transmission_token sep_op_par \" a\" sep_cl_par sep_semicolon" "b.txt"
            = .ok tokens' ∧
          List.Forall₂ Returns lowerCase tokens' ∧
          Machine.SameEnd (Machine.run {} (parse lowerCase).tree (.fresh []))
            (Machine.run {} (parse tokens').tree (.fresh [])) := by
  have hscan : scan "transmission ( \"  a\" ) ;" "a.txt" = .ok lowerCase := by
    decide +kernel
  have haccept : (parse lowerCase).verdict = .accept := by
    decide +kernel
  have hline : " ".intercalate (lowerCase.map tag)
      = "transmission_token sep_op_par \" a\" sep_cl_par sep_semicolon" := by
    decide +kernel
  obtain ⟨tokens', hread, hreturns, -, -, -, hruns⟩ :=
    readTags_agrees_with_scan _ _ _ hscan "b.txt"
  rw [hline] at hread
  exact ⟨hscan, haccept, tokens', hread, hreturns, hruns haccept {} (.fresh [])⟩

end Token
end CometLang
