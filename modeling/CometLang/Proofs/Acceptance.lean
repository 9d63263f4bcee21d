import CometLang.Proofs.Completeness
import CometLang.Proofs.Soundness

/-!
# Accepted programs

The tokens that spell an abstract program are accepted, and the tree that is
left shows the program. Together with soundness this says which sequences of
kinds are accepted: those of the grammar, and no others.
-/

namespace CometLang

open Limb

namespace Pending

/-- At the end of the program a complete expression is gathered. -/
theorem schedule_fallback :
    ∀ w ∈ complete,
      w.all Symbol.isAccepting = false ∧
        schedule? .fallback Guard.unclosed 6 w = some [⟨0, w.length, .arithExp⟩] := by
  decide

end Pending

namespace Abstract

/-- The symbols that are left of a program: one for each item at the top. -/
def Program.stack : Program → List Symbol
  | empty => []
  | items before _ => List.replicate (before.length + 1) (.nonterminal .expr)
  | arithmetic _ => [.nonterminal .arithExp]

theorem Program.exists_carries
    (program : Program)
    {tokens : List Token}
    (h : program.Spells tokens) :
    (Derivation.parse tokens).verdict = .accept ∧
      ∃ limbs,
        (Derivation.parse tokens).state.Carries tokens.length limbs ∧
          symbols limbs = program.stack ∧ program.Show (trees limbs) := by
  cases program with
  | empty =>
      obtain rfl := List.forall₂_nil_left_iff.1 h
      have hreads : Reads unguarded [] [] [] := .nil
      have hparse := Derivation.parse_of_accepting hreads rfl
      exact ⟨hparse.1, [], hparse.2, rfl, rfl⟩
  | items before last =>
      obtain ⟨limbs, hreads, hitems, hshow⟩ := exists_reads_items h
      have hlength : limbs.length = before.length + 1 := by
        simpa using hshow.length_eq.symm
      have hsymbols :
          symbols limbs = List.replicate (before.length + 1) (.nonterminal .expr) := by
        rw [List.eq_replicate_iff, length_symbols]
        refine ⟨hlength, ?_⟩
        intro s hs
        obtain ⟨limb, hlimb, rfl⟩ := List.mem_map.1 hs
        exact hitems limb hlimb
      have haccepting : (symbols limbs).all Symbol.isAccepting = true := by
        rw [hsymbols, List.all_replicate]
        rfl
      have hparse := Derivation.parse_of_accepting hreads haccepting
      exact ⟨hparse.1, limbs, hparse.2, hsymbols, hshow⟩
  | arithmetic a =>
      obtain ⟨limbs, hreads, hcomplete⟩ := Arithmetic.exists_reads h
      obtain ⟨haccepting, hschedule⟩ := Pending.schedule_fallback _ hcomplete
      have hsettles := settles_of_schedule 6 limbs _ Guard.unclosed_sketchable rfl hschedule
      have hsplice := splice_front limbs [] .arithExp
      rw [List.append_nil] at hsplice
      rw [length_sketch, List.foldl_cons, hsplice, List.foldl_nil] at hsettles
      have haccepting' : (symbols limbs).all Symbol.isAccepting = false := by
        rw [← haccepting, sketch, List.all_map]
        simp [Function.comp_def]
      have hparse := Derivation.parse_of_not_accepting hreads haccepting' hsettles
      have haccept := hparse.1.2 ⟨_, rfl, rfl⟩
      refine ⟨haccept, _, hparse.2 haccept, rfl, _, rfl, trees limbs, rfl, ?_⟩
      simp only [tree_phrase, leaves_tree_phrase, hreads.leaves_eq]
      exact h

/-- What is left of a program is determined by its shape at the top. -/
theorem Program.symbols_parse
    (program : Program)
    {tokens : List Token}
    (h : program.Spells tokens) :
    (Derivation.parse tokens).state.symbols = program.stack := by
  obtain ⟨-, limbs, hcarries, hsymbols, -⟩ := program.exists_carries h
  rw [hcarries.symbols_eq, hsymbols]

end Abstract

namespace Derivation

open Abstract

/--
A program is accepted if the kinds of its tokens are a sentence, and not
otherwise. What is left of it is one expression for each item at the top, or
one arithmetic expression.
-/
theorem accept_iff_sentence
    (tokens : List Token) :
    ((parse tokens).verdict = .accept ↔ Sentence.Program (tokens.map Token.kind)) ∧
      (tokens = [] → (parse tokens).state.symbols = []) ∧
      (∀ count, Sentence.Items count (tokens.map Token.kind) →
        (parse tokens).state.symbols = List.replicate count (.nonterminal .expr)) ∧
      (Sentence.Arithmetic (tokens.map Token.kind) →
        (parse tokens).state.symbols = [.nonterminal .arithExp]) := by
  refine ⟨⟨program_of_accepted, ?_⟩, ?_, ?_, ?_⟩
  · intro hsentence
    obtain ⟨program, hspells⟩ := exists_program hsentence
    exact (program.exists_carries hspells).1
  · rintro rfl
    exact Program.empty.symbols_parse .nil
  · intro count hitems
    obtain ⟨before, last, rfl, hspells⟩ := exists_items hitems
    exact (Program.items before last).symbols_parse hspells
  · intro harithmetic
    obtain ⟨a, hspells⟩ := exists_arithmetic harithmetic
    exact (Program.arithmetic a).symbols_parse hspells

end Derivation
end CometLang
