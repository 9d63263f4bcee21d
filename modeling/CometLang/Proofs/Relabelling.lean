import CometLang.Derivation.Parse
import CometLang.Proofs.Sketch

/-!
# Parsing looks at kinds only

Let every token be replaced by another of its kind. Then the parse of the new
tokens is the parse of the old ones with the same replacement carried out in the
symbols on the stack, in the tree and in the records: the same productions fire
on the same windows, and the verdict is the same.
-/

namespace CometLang

variable (f : Token → Token)

/-! ## Replacing tokens -/

/-- The symbol with its token replaced. -/
def Symbol.relabel : Symbol → Symbol
  | terminal token => terminal (f token)
  | nonterminal form => nonterminal form

def Stack.relabel (stack : Stack) : Stack :=
  ⟨stack.slots.map (Option.map (Symbol.relabel f)), stack.size⟩

def Label.relabel : Label → Label
  | program => program
  | token t => token (f t)
  | nonterminal form => nonterminal form

namespace Tree

mutual

/-- The tree with all its tokens replaced. -/
def relabel : Tree → Tree
  | node label children => node (label.relabel f) (relabelAll children)

def relabelAll : List Tree → List Tree
  | [] => []
  | t :: rest => relabel t :: relabelAll rest

end

theorem relabelAll_eq_map
    (trees : List Tree) :
    relabelAll f trees = trees.map (relabel f) := by
  induction trees with
  | nil =>
      rfl
  | cons t trees ih =>
      simp [relabelAll, ih]

@[simp] theorem label_relabel
    (t : Tree) :
    (t.relabel f).label = t.label.relabel f := by
  obtain ⟨label, children⟩ := t
  rfl

@[simp] theorem children_relabel
    (t : Tree) :
    (t.relabel f).children = t.children.map (relabel f) := by
  obtain ⟨label, children⟩ := t
  exact relabelAll_eq_map f children

end Tree

def Record.relabel : Record → Record
  | shift token symbols => shift (f token) (symbols.map (Symbol.relabel f))
  | reduce production symbols window =>
      reduce production (symbols.map (Symbol.relabel f)) (window.map (Symbol.relabel f))
  | verdict v => verdict v

namespace Derivation

def State.relabel (s : State) : State where
  pending := s.pending.map f
  stack := s.stack.relabel f
  tree := s.tree.relabel f
  trace := s.trace.map (Record.relabel f)

def Outcome.relabel (o : Outcome) : Outcome where
  primary := o.primary.relabel f
  attempt := o.attempt.map fun attempt => (attempt.1.relabel f, attempt.2)
  verdict := o.verdict
  state := o.state.relabel f

@[simp] theorem Outcome.verdict_relabel
    (o : Outcome) :
    (o.relabel f).verdict = o.verdict := by
  rfl

@[simp] theorem Outcome.state_relabel
    (o : Outcome) :
    (o.relabel f).state = o.state.relabel f := by
  rfl

@[simp] theorem State.tree_relabel
    (s : State) :
    (s.relabel f).tree = s.tree.relabel f := by
  rfl

end Derivation

/-! ## Stacks and trees -/

namespace Stack

@[simp] theorem symbols_relabel
    (stack : Stack) :
    (stack.relabel f).symbols = stack.symbols.map (Symbol.relabel f) := by
  simp [symbols, relabel, ← List.map_take, List.filterMap_map, List.map_filterMap]

theorem push_relabel
    (stack : Stack)
    (s : Symbol) :
    (stack.push s).relabel f = (stack.relabel f).push (s.relabel f) := by
  simp only [push, relabel, List.length_map]
  split
  · simp
  · simp

theorem packed_relabel
    (capacity : Nat)
    (symbols : List Symbol) :
    (packed capacity symbols).relabel f = packed capacity (symbols.map (Symbol.relabel f)) := by
  simp [packed, relabel]

theorem compact_relabel
    (slots : List (Option Symbol)) :
    (compact slots).relabel f = compact (slots.map (Option.map (Symbol.relabel f))) := by
  have hfound : (slots.map (Option.map (Symbol.relabel f))).filterMap id
      = (slots.filterMap id).map (Symbol.relabel f) := by
    simp [List.filterMap_map, List.map_filterMap]
  rw [compact_eq_packed, compact_eq_packed, packed_relabel, hfound, List.length_map]

theorem replaceWindow_relabel
    (slots : List (Option Symbol))
    (start width : Nat)
    (lhs : Nonterminal) :
    replaceWindow (slots.map (Option.map (Symbol.relabel f))) start width lhs
      = (replaceWindow slots start width lhs).map (Option.map (Symbol.relabel f)) := by
  simp [replaceWindow, Symbol.relabel]

theorem reduce?_relabel
    (stack : Stack)
    (start width : Nat)
    (lhs : Nonterminal) :
    (stack.relabel f).reduce? start width lhs
      = (stack.reduce? start width lhs).map (Stack.relabel f) := by
  have hslots : (stack.relabel f).slots = stack.slots.map (Option.map (Symbol.relabel f)) := rfl
  have hcapacity : (stack.relabel f).capacity = stack.capacity := by
    rw [capacity, hslots, List.length_map]
    rfl
  rw [reduce?_eq, reduce?_eq, hslots, hcapacity]
  split
  · rw [Option.map_some, compact_relabel, replaceWindow_relabel]
  · rfl

end Stack

namespace Tree

theorem addChild_relabel
    (t child : Tree) :
    (t.addChild child).relabel f = (t.relabel f).addChild (child.relabel f) := by
  simp [addChild, relabel, relabelAll_eq_map]

theorem collapse?_relabel
    (t : Tree)
    (start width : Nat)
    (lhs : Nonterminal) :
    (t.relabel f).collapse? start width lhs
      = (t.collapse? start width lhs).map (relabel f) := by
  simp only [collapse?, children_relabel, label_relabel, List.length_map]
  split
  · simp [relabel, relabelAll_eq_map, Label.relabel]
  · rfl

end Tree

@[simp] theorem Symbol.form?_relabel
    (s : Symbol) :
    (s.relabel f).form? = s.form? := by
  cases s <;> rfl

theorem Symbol.weight_relabel
    (s : Symbol) :
    (s.relabel f).weight = s.weight := by
  cases s <;> rfl

theorem Stack.weight_relabel
    (stack : Stack) :
    (stack.relabel f).weight = stack.weight := by
  rw [weight, weight, symbols_relabel]
  induction stack.symbols with
  | nil =>
      rfl
  | cons s symbols ih =>
      simp [symbolsWeight, Symbol.weight_relabel, ih]

/-! ## States -/

namespace Derivation
namespace State

theorem symbols_relabel
    (s : State) :
    (s.relabel f).symbols = s.symbols.map (Symbol.relabel f) :=
  s.stack.symbols_relabel f

theorem start_relabel
    (tokens : List Token) :
    start (tokens.map f) = (start tokens).relabel f := by
  simp [start, relabel, Stack.withCapacity, Stack.relabel, Tree.program, Tree.relabel,
    Tree.relabelAll, Label.relabel]

theorem shiftToken_relabel
    (s : State)
    (token : Token)
    (rest : List Token) :
    (s.relabel f).shiftToken (f token) (rest.map f) = (s.shiftToken token rest).relabel f := by
  have hpush : (s.stack.relabel f).push (.terminal (f token))
      = (s.stack.push (.terminal token)).relabel f :=
    (s.stack.push_relabel f (.terminal token)).symm
  have hchild : (s.tree.relabel f).addChild (.leaf (f token))
      = (s.tree.addChild (.leaf token)).relabel f :=
    (s.tree.addChild_relabel f (.leaf token)).symm
  simp [shiftToken, relabel, hpush, hchild, Record.relabel]

theorem fire?_relabel
    (s : State)
    (p : Production)
    (r : Reduction) :
    (s.relabel f).fire? p r = (s.fire? p r).map (relabel f) := by
  have hstack : (s.relabel f).stack = s.stack.relabel f := rfl
  have htree : (s.relabel f).tree = s.tree.relabel f := rfl
  rw [fire?, fire?, hstack, htree, Stack.reduce?_relabel, Tree.collapse?_relabel]
  cases s.stack.reduce? r.start r.width r.lhs with
  | none =>
      rfl
  | some stack =>
      cases s.tree.collapse? r.start r.width r.lhs with
      | none =>
          rfl
      | some tree =>
          simp [relabel, Record.relabel, symbols]

theorem isAccepting_relabel
    (s : State) :
    (s.relabel f).isAccepting = s.isAccepting := by
  rw [isAccepting, isAccepting, symbols_relabel, List.all_map]
  congr 1
  funext symbol
  simp [Symbol.isAccepting]

theorem isSingleArithmetic_relabel
    (s : State) :
    (s.relabel f).isSingleArithmetic = s.isSingleArithmetic := by
  rw [isSingleArithmetic, isSingleArithmetic, symbols_relabel]
  cases s.symbols with
  | nil => rfl
  | cons symbol rest =>
    cases rest with
    | nil => simp [Symbol.isForm]
    | cons _ _ => rfl

end State
end Derivation

/-! ## Steps and runs -/

section

variable {f}
variable (hf : ∀ token, (f token).kind = token.kind)

include hf

theorem Symbol.sketch_relabel
    (s : Symbol) :
    (s.relabel f).sketch = s.sketch := by
  cases s with
  | terminal token =>
      simp [relabel, hf]
  | nonterminal form =>
      rfl

/-- The search for the next reduction looks at kinds only. -/
theorem nextReduction?_relabel
    (mode : Mode)
    (symbols : List Symbol) :
    nextReduction? mode (symbols.map (Symbol.relabel f)) = nextReduction? mode symbols := by
  rw [← nextReduction?_sketch, ← nextReduction?_sketch mode symbols, List.map_map]
  congr 2
  funext s
  exact s.sketch_relabel hf

namespace Derivation
namespace State

theorem step?_relabel
    (mode : Mode)
    (s : State) :
    (s.relabel f).step? mode = (s.step? mode).map fun step => (step.1.relabel f, step.2) := by
  rw [step?, step?, symbols_relabel, nextReduction?_relabel hf]
  cases nextReduction? mode s.symbols with
  | none =>
      rfl
  | some found =>
      obtain ⟨p, r⟩ := found
      change ((s.relabel f).fire? p r >>= fun s' => pure (s', r)) = Option.map _
        (s.fire? p r >>= fun s' => pure (s', r))
      rw [fire?_relabel]
      cases s.fire? p r <;> rfl

theorem reduceWithin_relabel
    (mode : Mode)
    (fuel : Nat)
    (s : State) :
    reduceWithin mode fuel (s.relabel f)
      = ((reduceWithin mode fuel s).1.relabel f, (reduceWithin mode fuel s).2) := by
  induction fuel generalizing s with
  | zero =>
      rfl
  | succ fuel ih =>
      rw [reduceWithin, reduceWithin, step?_relabel hf]
      cases s.step? mode with
      | none =>
          rfl
      | some step =>
          obtain ⟨s', r⟩ := step
          simp only [Option.map_some, ih]

theorem reduce_relabel
    (mode : Mode)
    (s : State) :
    (s.relabel f).reduce mode = ((s.reduce mode).1.relabel f, (s.reduce mode).2) := by
  have hweight : (s.relabel f).stack.weight = s.stack.weight := s.stack.weight_relabel f
  rw [reduce, reduce, hweight, reduceWithin_relabel hf]

theorem feed_relabel
    (s : State)
    (tokens : List Token) :
    (s.relabel f).feed (tokens.map f) = (s.feed tokens).relabel f := by
  induction tokens generalizing s with
  | nil =>
      rfl
  | cons token tokens ih =>
      rw [List.map_cons, feed, feed, shiftToken_relabel, reduce_relabel hf, ih]

theorem settle_relabel
    (s : State) :
    (s.relabel f).settle = s.settle.relabel f := by
  have hpending : (s.relabel f).pending = s.pending.map f := rfl
  rw [settle, settle, hpending, feed_relabel hf, reduce_relabel hf]

end State

/-- The parse of replaced tokens is the parse of the tokens, with the same replacement. -/
theorem parse_map
    (tokens : List Token) :
    parse (tokens.map f) = (parse tokens).relabel f := by
  simp only [parse, State.start_relabel, State.settle_relabel hf, State.isAccepting_relabel,
    State.reduce_relabel hf, State.isSingleArithmetic_relabel]
  split
  · rfl
  · split
    · rfl
    · rfl

end Derivation
end

/-! ## What is shown -/

section

variable {f}
variable (hf : ∀ token, (f token).tag = token.tag)

include hf

theorem symbolsText_relabel
    (symbols : List Symbol) :
    symbolsText (symbols.map (Symbol.relabel f)) = symbolsText symbols := by
  rw [symbolsText, symbolsText, List.map_map]
  congr 2
  funext s
  cases s with
  | terminal token =>
      exact hf token
  | nonterminal form =>
      rfl

/-- A record shows tags only. -/
theorem Record.text_relabel
    (record : Record) :
    (record.relabel f).text = record.text := by
  cases record <;> simp [relabel, text, symbolsText_relabel hf, hf]

theorem Derivation.State.text_records_relabel
    (s : State) :
    (s.relabel f).records.map Record.text = s.records.map Record.text := by
  have hrecords : (s.relabel f).records = s.records.map (Record.relabel f) := by
    simp [records, relabel]
  rw [hrecords, List.map_map]
  congr 1
  funext record
  exact record.text_relabel hf

theorem Label.text_relabel
    (label : Label) :
    (label.relabel f).text = label.text := by
  cases label <;> simp [relabel, text, hf]

end

namespace Tree

variable {f}

mutual

/-- A tree shows tags only. -/
theorem textAt_relabel
    (hf : ∀ token, (f token).tag = token.tag)
    (depth : Nat) :
    ∀ t : Tree, textAt depth (t.relabel f) = textAt depth t
  | node label children => by
      rw [relabel, textAt, textAt, label.text_relabel hf, textOfAll_relabel hf (depth + 1) children]

theorem textOfAll_relabel
    (hf : ∀ token, (f token).tag = token.tag)
    (depth : Nat) :
    ∀ trees : List Tree, textOfAll depth (relabelAll f trees) = textOfAll depth trees
  | [] => rfl
  | t :: rest => by
      rw [relabelAll, textOfAll, textOfAll, textAt_relabel hf depth t,
        textOfAll_relabel hf depth rest]

end

end Tree
end CometLang
