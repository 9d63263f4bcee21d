import CometLang.Proofs.Acceptance
import CometLang.Proofs.Refinement

/-!
# Parsing and running a program

Whatever tokens spell a program, they are accepted, and a run of the tree that
is left does what the program means: it ends in the same way, with the same
fault if there is one, and leaves the same frames, closed frames, table, input,
output and number of flushes.
-/

namespace CometLang

open Abstract Action

namespace Derivation

/-- The tree of an accepted program runs to the effect of the program. -/
theorem simulates_parse
    {program : Program}
    {tokens : List Token}
    (h : program.Spells tokens)
    (settings : Settings) :
    Simulates id (Machine.run settings (parse tokens).tree) (program.effect settings) := by
  obtain ⟨-, limbs, hcarries, -, hshow⟩ := program.exists_carries h
  have htree : (parse tokens).tree = .node .program (Limb.trees limbs) := hcarries.tree
  rw [htree]
  exact Program.runs hshow

/--
The tokens of a program are accepted, and running the tree on any machine does
to its world what the program means.
-/
theorem run_parse_eq_effect
    (program : Program)
    (tokens : List Token)
    (h : program.Spells tokens)
    (settings : Settings)
    (m : Machine) :
    (parse tokens).verdict = .accept ∧
      seen id (Machine.run settings (parse tokens).tree m)
        = program.effect settings m.visible := by
  constructor
  · exact (program.exists_carries h).1
  · exact simulates_parse h settings m

/--
`Comet x = 2; Whirl (x > 0) { Transmission("t"); Orbit (x > 1) { Comet y = x;
Transmission(y); }; x = x - 1; }; Transmission(x);`
-/
def countingDown : Program :=
  .items
    [.statement (.declaration ⟨"x", .unknown⟩ (.operand (.literal "2" .unknown))),
     .statement (.whirl .unknown
       ⟨⟨.name ⟨"x", .unknown⟩, .greater, .literal "0" .unknown⟩, []⟩
       (.more (.statement (.transmission (.text "\"t\"")))
         (.more (.statement (.orbit
             ⟨⟨.name ⟨"x", .unknown⟩, .greater, .literal "1" .unknown⟩, []⟩
             (.more (.statement (.declaration ⟨"y", .unknown⟩ (.operand (.name ⟨"x", .unknown⟩))))
               (.last (.statement (.transmission (.name ⟨"y", .unknown⟩)))))))
           (.last (.statement (.assignment ⟨"x", .unknown⟩
             (.arithmetic ⟨.name ⟨"x", .unknown⟩,
               ⟨.minus, .literal "1" .unknown⟩, []⟩)))))))]
    (.transmission (.name ⟨"x", .unknown⟩))

/--
Two rounds of a loop write `t` and `2`, and `t` again; then `0` is written. Four
frames were closed: that of the branch, those of the two rounds and that of the
program. The name of the branch was bound in its own frame only.
-/
theorem run_parse_countingDown :
    (parse countingDown.spelling).verdict = .accept ∧
      ∃ m',
        Machine.run {} (parse countingDown.spelling).tree (.fresh []) = .ok () m' ∧
          m'.output.toList = [116, 10, 50, 10, 116, 10, 48, 10] ∧
          m'.scopes.frames.map (·.get? "x") = [] ∧
          m'.scopes.closed.map (·.get? "x") = [some "0", none, none, none] ∧
          m'.scopes.closed.map (·.get? "y") = [none, none, none, some "2"] ∧
          (m'.table.get? "x").map Entry.value = some "0" ∧
          (m'.table.get? "y").map Entry.value = some "2" := by
  obtain ⟨haccept, hrun⟩ :=
    run_parse_eq_effect countingDown _ countingDown.spells_spelling {} (.fresh [])
  have heffect :
      (match countingDown.effect {} (Machine.fresh []).visible with
        | .ok _ w => decide <|
            w.output.toList = [116, 10, 50, 10, 116, 10, 48, 10] ∧
              w.frames.map (·.get? "x") = [] ∧
              w.closed.map (·.get? "x") = [some "0", none, none, none] ∧
              w.closed.map (·.get? "y") = [none, none, none, some "2"] ∧
              (w.table.get? "x").map Entry.value = some "0" ∧
              (w.table.get? "y").map Entry.value = some "2"
        | .error _ _ => false)
        = true := by
    decide +kernel
  rw [← hrun] at heffect
  refine ⟨haccept, ?_⟩
  cases hend : Machine.run {} (parse countingDown.spelling).tree (.fresh []) with
  | ok a m' =>
      rw [hend] at heffect
      exact ⟨m', rfl, of_decide_eq_true heffect⟩
  | error fault m' =>
      rw [hend] at heffect
      cases heffect

end Derivation
end CometLang
