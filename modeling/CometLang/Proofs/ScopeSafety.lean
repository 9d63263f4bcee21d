import CometLang.Proofs.Adequacy
import CometLang.Proofs.CometText
import CometLang.Proofs.GoodValues
import CometLang.Proofs.Scoping

/-!
# Well-scoped programs are safe

The sets of names that the pass over a program keeps are at every moment the
names that the innermost open frames bind, one frame a set. A body that runs
again starts in a new frame, as it starts with an empty set in the pass; and
the guard behind it is read when that frame is closed. So a well-scoped program
finds every name that it reads or writes, and declares no name twice in a frame.

A second invariant goes with the first: the values in these frames are good, in
a sense that is left open. It is a parameter of the argument, and so is what a
run may be blamed for. A contract says how the two fit together. Under one
contract all values are good and no name is to blame; under another all values
are texts of comets, and only a division by zero or a loop is to blame.
-/

namespace CometLang

open Abstract

/-! ## Frames that bind the names of the pass -/

/--
The innermost frames bind the names of the sets, one frame a set, and hold good
values. What lies further out may be anything.
-/
inductive Covers (good : String → Prop) : List (List String) → List Frame → Prop
  | outside
      (frames : List Frame) :
      Covers good [] frames
  | block
      {names : List String}
      {sets : List (List String)}
      {frame : Frame}
      {frames : List Frame}
      (hnames : ∀ name, frame.binds name = true ↔ name ∈ names)
      (hvalues : frame.Holds good)
      (hrest : Covers good sets frames) :
      Covers good (names :: sets) (frame :: frames)

namespace Covers

variable {good : String → Prop}
variable {sets : List (List String)}
variable {frames : List Frame}

/-- A new block has no names, and a new frame binds none. -/
theorem opened
    (h : Covers good sets frames) :
    Covers good ([] :: sets) (Table.empty :: frames) := by
  refine .block ?_ ?_ h
  · intro name
    simp [Table.binds]
  · intro name value hget
    simp at hget

/-- A name that is visible has a value in one of the frames, and it is good. -/
theorem exists_value
    (h : Covers good sets frames)
    {n : Name}
    (hvisible : n.isVisible sets = true) :
    ∃ value, frames.findSome? (·.get? n.text) = some value ∧ good value := by
  induction h with
  | outside frames =>
      simp [Name.isVisible] at hvisible
  | @block names sets frame frames hnames hvalues _ ih =>
      cases hget : frame.get? n.text with
      | some value =>
          exact ⟨value, by simp [hget], hvalues _ _ hget⟩
      | none =>
          have hnot : n.text ∉ names := by
            rw [← hnames, Table.binds, hget]
            simp
          have hrest : n.isVisible sets = true := by
            simpa [Name.isVisible, hnot] using hvisible
          obtain ⟨value, hvalue, hgood⟩ := ih hrest
          exact ⟨value, by simpa [hget] using hvalue, hgood⟩

/-- A name that is visible is assigned in one of the frames. -/
theorem exists_assigned
    (h : Covers good sets frames)
    {n : Name}
    (hvisible : n.isVisible sets = true)
    {value : String}
    (hvalue : good value) :
    ∃ frames',
      Scopes.assignIn? n.text value frames = some frames' ∧ Covers good sets frames' := by
  induction h with
  | outside frames =>
      simp [Name.isVisible] at hvisible
  | @block names sets frame frames hnames hvalues hrest ih =>
      rw [Scopes.assignIn?]
      by_cases hbinds : frame.binds n.text = true
      · refine ⟨_, if_pos hbinds, .block ?_ (Frame.holds_insert hvalues hvalue) hrest⟩
        intro name
        rw [Table.binds_insert, ← hnames]
        by_cases hname : name = n.text
        · subst hname
          simp [hbinds]
        · simp [hname]
      · have hnot : n.text ∉ names := by
          rwa [← hnames]
        have hvisible' : n.isVisible sets = true := by
          simpa [Name.isVisible, hnot] using hvisible
        obtain ⟨frames', hassigned, hcovers⟩ := ih hvisible'
        exact ⟨frame :: frames', by simp [hbinds, hassigned], .block hnames hvalues hcovers⟩

end Covers

/-! ## Contracts -/

/-- What values are to be, and what a run may be blamed for. -/
structure Contract (settings : Settings) where
  good : String → Prop
  blame : Cause → Prop
  division : blame .divisionByZero
  excess : blame (.loopLimitExceeded settings.maxIterations)
  /-- The result of an operation is good. -/
  total : ∀ n, good (Numeral.wholeText n)
  /-- A good value that is no whole number may be blamed. -/
  whole :
    ∀ text, good text → (Numeral.wholeOf? text).isSome = true ∨
      blame (.typeMismatch "a comet (integer)" text)
  /-- A good value that cannot be compared may be blamed. -/
  double :
    ∀ text, good text → (Numeral.Double.ofText? text).isSome = true ∨
      blame (.typeMismatch "a comet (integer)" text)
  /-- The output takes everything, or may be blamed. -/
  output : settings.sink.TakesAll ∨ ∀ message, blame (.io message)

namespace Contract

variable {settings : Settings}

/-- The fault may be blamed on the run, wherever it stands. -/
def Blames
    (c : Contract settings)
    (fault : Fault) : Prop :=
  c.blame fault.cause

/-- Any line may be received: what it reads as is good, and all that can go wrong may be blamed. -/
structure Receives (c : Contract settings) : Prop where
  numeral : ∀ text, c.good text
  mismatch : ∀ text, c.blame (.typeMismatch "a comet (integer)" text)
  exhausted : c.blame .inputExhausted
  io : ∀ message, c.blame (.io message)

/-- What the piece writes is good, and a line may be received if it asks for one. -/
structure Admits
    (c : Contract settings)
    (piece : Piece) : Prop where
  literal : piece.kind = .cometLiteral → ∀ text ∈ piece.value?, c.good text
  reception : piece.kind = .reception → c.Receives

/-- The frames are covered behind a change that ended well; a fault may be blamed. -/
def Ends
    {α : Type}
    (c : Contract settings)
    (sets : List (List String)) :
    EStateM.Result Fault World α → Prop
  | .ok _ w => Covers c.good sets w.frames
  | .error fault _ => c.blame fault.cause

/-- From frames covered by some sets the change leads to frames covered by others. -/
def Meets
    {α : Type}
    (c : Contract settings)
    (sets : List (List String))
    (change : Change α)
    (sets' : List (List String)) : Prop :=
  ∀ w, Covers c.good sets w.frames → c.Ends sets' (change w)

/-! ## Expressions -/

section Expressions

variable (c : Contract settings)
variable {sets : List (List String)}
variable {frames : List Frame}

theorem yields_name
    (h : Covers c.good sets frames)
    {n : Name}
    (hvisible : n.isVisible sets = true) :
    Yields c.good c.Blames (n.value frames) := by
  obtain ⟨value, hvalue, hgood⟩ := h.exists_value hvisible
  rw [Name.value, hvalue]
  exact hgood

theorem yields_operand
    (h : Covers c.good sets frames)
    {o : Operand}
    (hscoped : o.isScoped sets = true)
    (hadmits : c.Admits o.piece) :
    Yields c.good c.Blames (o.text frames) := by
  cases o with
  | name n =>
      exact c.yields_name h hscoped
  | literal text position =>
      exact hadmits.literal rfl text rfl

theorem yields_number
    {α : Type}
    {reader : String → Option α}
    (hreader : ∀ text, c.good text → (reader text).isSome = true ∨
      c.blame (.typeMismatch "a comet (integer)" text))
    (h : Covers c.good sets frames)
    {o : Operand}
    (hscoped : o.isScoped sets = true)
    (hadmits : c.Admits o.piece) :
    Yields (fun _ => True) c.Blames (o.number reader frames) := by
  refine (c.yields_operand h hscoped hadmits).bind fun text hgood => ?_
  cases hread : reader text with
  | some value =>
      trivial
  | none =>
      rcases hreader text hgood with hsome | hblame
      · simp [hread] at hsome
      · exact hblame

/-- Once the operands are read, only a division can fail. -/
theorem yields_total
    (before : Int64 → Int64)
    (term : Int64)
    (operations : List (Operator × Int64)) :
    Yields (fun _ => True) c.Blames (Arithmetic.total before term operations) := by
  fun_induction Arithmetic.total before term operations with
  | case1 before term =>
      trivial
  | case2 before term right rest ih =>
      exact ih
  | case3 before term right rest ih =>
      exact ih
  | case4 before term right rest ih =>
      exact ih
  | case5 before term position rest =>
      exact c.division
  | case6 before term position right rest hright ih =>
      exact ih

theorem yields_arithmetic
    (h : Covers c.good sets frames)
    {a : Arithmetic}
    (hscoped : a.isScoped sets = true)
    (hadmits : ∀ piece ∈ a.pieces, c.Admits piece) :
    Yields (fun _ => True) c.Blames (a.value frames) := by
  simp only [Arithmetic.isScoped, Bool.and_eq_true, List.all_eq_true] at hscoped
  have hfirst : c.Admits a.first.piece := hadmits _ (by simp [Arithmetic.pieces])
  refine (c.yields_number c.whole h hscoped.1 hfirst).bind fun first _ => ?_
  have hvalues :
      Yields (fun _ => True) c.Blames (Operation.values frames (a.second :: a.more)) := by
    refine (Yields.mapM (fun _ => True) fun operation hoperation => ?_).weaken fun _ _ => trivial
    have hoperand : c.Admits operation.operand.piece := by
      refine hadmits _ (List.mem_cons_of_mem _ ?_)
      exact List.mem_flatMap_of_mem hoperation (by simp [Operation.pieces])
    exact (c.yields_number c.whole h (hscoped.2 _ hoperation) hoperand).bind fun _ _ => trivial
  exact hvalues.bind fun operations _ => c.yields_total id first operations

theorem yields_value
    (h : Covers c.good sets frames)
    {value : Value}
    (hscoped : value.isScoped sets = true)
    (hadmits : ∀ piece ∈ value.pieces, c.Admits piece) :
    Yields c.good c.Blames (value.text frames) := by
  cases value with
  | operand o =>
      exact c.yields_operand h hscoped (hadmits _ (by simp [Value.pieces]))
  | arithmetic a =>
      exact (c.yields_arithmetic h hscoped hadmits).bind fun n _ => c.total n

theorem yields_comparison
    (h : Covers c.good sets frames)
    {comparison : Comparison}
    (hscoped : comparison.isScoped sets = true)
    (hadmits : ∀ piece ∈ comparison.pieces, c.Admits piece) :
    Yields (fun _ => True) c.Blames (comparison.truth frames) := by
  rw [Comparison.isScoped, Bool.and_eq_true] at hscoped
  have hleft : c.Admits comparison.left.piece := hadmits _ (by simp [Comparison.pieces])
  have hright : c.Admits comparison.right.piece := hadmits _ (by simp [Comparison.pieces])
  refine (c.yields_number c.double h hscoped.1 hleft).bind fun left _ => ?_
  exact (c.yields_number c.double h hscoped.2 hright).bind fun right _ => trivial

theorem yields_condition
    (h : Covers c.good sets frames)
    {guard : Condition}
    (hscoped : guard.isScoped sets = true)
    (hadmits : ∀ piece ∈ guard.pieces, c.Admits piece) :
    Yields (fun _ => True) c.Blames (guard.truth frames) := by
  simp only [Condition.isScoped, Bool.and_eq_true, List.all_eq_true] at hscoped
  have hfirst : ∀ piece ∈ guard.first.pieces, c.Admits piece := by
    intro piece hpiece
    exact hadmits piece (by simp [Condition.pieces, hpiece])
  refine (c.yields_comparison h hscoped.1 hfirst).bind fun first _ => ?_
  have htruths : Yields (fun _ => True) c.Blames (Link.truths frames guard.links) := by
    refine (Yields.mapM (fun _ => True) fun link hlink => ?_).weaken fun _ _ => trivial
    have hpieces : ∀ piece ∈ link.comparison.pieces, c.Admits piece := by
      intro piece hpiece
      have hmem : piece ∈ guard.links.flatMap Link.pieces :=
        List.mem_flatMap_of_mem hlink (List.mem_cons_of_mem _ hpiece)
      apply hadmits piece
      rw [Condition.pieces, List.mem_cons, List.mem_append, List.mem_append]
      exact .inr (.inl (.inr hmem))
    exact (c.yields_comparison h (hscoped.2 _ hlink) hpieces).bind fun _ _ => trivial
  exact htruths.bind fun others _ => trivial

theorem yields_argument
    (h : Covers c.good sets frames)
    {argument : Argument}
    (hscoped : argument.isScoped sets = true) :
    Yields (fun _ => True) c.Blames (argument.contents frames) := by
  cases argument with
  | text quoted =>
      trivial
  | name n =>
      obtain ⟨value, hvalue, -⟩ := h.exists_value hscoped
      rw [Argument.contents, Name.value, hvalue]
      trivial

end Expressions

/-! ## Changes -/

namespace Meets

variable {c : Contract settings}
variable {sets sets' sets'' : List (List String)}
variable {α β : Type}

theorem pure
    (a : α) :
    c.Meets sets (Pure.pure a) sets := by
  intro w h
  exact h

theorem throw
    {fault : Fault}
    (h : c.blame fault.cause) :
    c.Meets sets (MonadExcept.throw fault : Change α) sets' := by
  intro w _
  exact h

theorem bind
    {change : Change α}
    {next : α → Change β}
    (h : c.Meets sets change sets')
    (hnext : ∀ a, c.Meets sets' (next a) sets'') :
    c.Meets sets (change >>= next) sets'' := by
  intro w hw
  have hchange := h w hw
  change c.Ends sets'' (EStateM.bind change next w)
  rw [EStateM.bind]
  cases hend : change w with
  | ok a w' =>
      rw [hend] at hchange
      exact hnext a w' hchange
  | error fault w' =>
      rw [hend] at hchange
      exact hchange

/-- What is read from the frames is fine for what is done next. -/
theorem look
    {fine : α → Prop}
    {read : List Frame → Except Fault α}
    {next : α → Change β}
    (h : ∀ {frames}, Covers c.good sets frames → Yields fine c.Blames (read frames))
    (hnext : ∀ a, fine a → c.Meets sets (next a) sets') :
    c.Meets sets (Change.look read >>= next) sets' := by
  intro w hw
  have hread := h hw
  change c.Ends sets' (EStateM.bind (Change.look read) next w)
  rw [EStateM.bind, Change.look]
  cases hresult : read w.frames with
  | ok a =>
      rw [hresult] at hread
      exact hnext a hread w hw
  | error fault =>
      rw [hresult] at hread
      exact hread

theorem record
    (name value : String) :
    c.Meets sets (Change.record name value) sets := by
  intro w h
  exact h

theorem emit
    (text : String)
    (position : Position) :
    c.Meets sets (Change.emit settings text position) sets := by
  intro w h
  rw [Change.emit]
  cases hrefused : settings.sink.refusal? w.output w.flushes text.toUTF8.toList with
  | none =>
      exact h
  | some refusal =>
      rcases c.output with hall | hio
      · exact absurd hall (Sink.not_takesAll hrefused)
      · exact hio refusal.message

theorem flush
    (h : c.Receives)
    (position : Position) :
    c.Meets sets (Change.flush settings position) sets := by
  intro w hw
  rw [Change.flush]
  cases settings.sink.flushError? w.output w.flushes with
  | none =>
      exact hw
  | some message =>
      exact h.io message

theorem receive
    (h : c.Receives)
    (position : Position) :
    c.Meets sets (Change.receive position) sets := by
  intro w hw
  rw [Change.receive]
  split
  · exact h.exhausted
  · split
    · exact hw
    · exact h.io _

theorem declare
    {names : List String}
    {n : Name}
    (hnew : n.text ∉ names)
    {value : String}
    (hvalue : c.good value) :
    c.Meets (names :: sets) (n.declare value) ((n.text :: names) :: sets) := by
  intro w hw
  rw [Name.declare]
  cases hframes : w.frames with
  | nil =>
      rw [hframes] at hw
      cases hw
  | cons frame rest =>
      rw [hframes] at hw
      cases hw with
      | block hnames hvalues hrest =>
          have hunbound : (frame.get? n.text).isSome ≠ true := fun hbound =>
            hnew ((hnames n.text).1 hbound)
          dsimp only
          rw [if_neg hunbound]
          refine .block ?_ (Frame.holds_insert hvalues hvalue) hrest
          intro name
          rw [Table.binds_insert, List.mem_cons, ← hnames, Bool.or_eq_true, decide_eq_true_eq]

theorem assign
    {n : Name}
    (hvisible : n.isVisible sets = true)
    {value : String}
    (hvalue : c.good value) :
    c.Meets sets (n.assign value) sets := by
  intro w hw
  obtain ⟨frames', hassigned, hcovers⟩ := hw.exists_assigned hvisible hvalue
  rw [Action.Simulates.assignIn?_eq] at hassigned
  rw [Name.assign]
  cases hindex : w.frames.findIdx? fun frame => (frame.get? n.text).isSome with
  | none =>
      simp [hindex] at hassigned
  | some index =>
      rw [hindex] at hassigned
      cases hassigned
      exact hcovers

/-- The set of a block is dropped when its frame is closed. -/
theorem inBlock
    {body : Change Unit}
    {names : List String}
    (h : c.Meets ([] :: sets) body (names :: sets)) :
    c.Meets sets (Change.inBlock body) sets := by
  intro w hw
  have hbody := h (Change.opened w) hw.opened
  rw [Change.inBlock]
  cases hend : body (Change.opened w) with
  | ok _ w' =>
      rw [hend] at hbody
      change Covers c.good (names :: sets) w'.frames at hbody
      change Covers c.good sets (Change.closed w').frames
      rw [Change.closed]
      cases hframes : w'.frames with
      | nil =>
          rw [hframes] at hbody
          cases hbody
      | cons frame rest =>
          rw [hframes] at hbody
          cases hbody with
          | block _ _ hrest =>
              exact hrest
  | error fault w' =>
      rw [hend] at hbody
      exact hbody

/-- What is done in either case is done after looking at a guard. -/
theorem guarded
    {guard : Condition}
    {change change' : Change Unit}
    (hguard : guard.isScoped sets = true)
    (hadmits : ∀ piece ∈ guard.pieces, c.Admits piece)
    (h : c.Meets sets change sets')
    (h' : c.Meets sets change' sets') :
    c.Meets sets
      (do
        if ← Change.look guard.truth then
          change
        else
          change')
      sets' := by
  refine look (fun hcovers => c.yields_condition hcovers hguard hadmits) fun holds _ => ?_
  cases holds with
  | true =>
      exact h
  | false =>
      exact h'

theorem whileHolds
    {excess : Fault}
    {guard : Condition}
    {body : Change Unit}
    (hexcess : c.blame excess.cause)
    (hguard : guard.isScoped sets = true)
    (hadmits : ∀ piece ∈ guard.pieces, c.Admits piece)
    (hbody : c.Meets sets body sets)
    (count : Nat) :
    c.Meets sets (Change.whileHolds excess (Change.look guard.truth) body count) sets := by
  induction count with
  | zero =>
      exact guarded hguard hadmits (throw hexcess) (pure ())
  | succ count ih =>
      exact guarded hguard hadmits (hbody.bind fun _ => ih) (pure ())

theorem untilFails
    {excess : Fault}
    {guard : Condition}
    {body : Change Unit}
    (hexcess : c.blame excess.cause)
    (hguard : guard.isScoped sets = true)
    (hadmits : ∀ piece ∈ guard.pieces, c.Admits piece)
    (hbody : c.Meets sets body sets)
    (count : Nat) :
    c.Meets sets (Change.untilFails excess (Change.look guard.truth) body count) sets := by
  induction count with
  | zero =>
      exact throw hexcess
  | succ count ih =>
      exact hbody.bind fun _ => guarded hguard hadmits ih (pure ())

theorem receiveInto
    {target : Name}
    {prompt : Argument}
    (hreceives : c.Receives)
    (htarget : target.isVisible sets = true)
    (hprompt : prompt.isScoped sets = true) :
    c.Meets sets (Abstract.receiveInto settings target prompt) sets := by
  refine look (fun hcovers => c.yields_name hcovers htarget) fun _ _ => ?_
  refine look (fun hcovers => c.yields_argument hcovers hprompt) fun question _ => ?_
  refine (emit question target.position).bind fun _ => ?_
  refine (flush hreceives target.position).bind fun _ => ?_
  refine (receive hreceives target.position).bind fun line => ?_
  dsimp only
  split
  · exact (assign htarget (hreceives.numeral _)).bind fun _ => record _ _
  · exact throw (hreceives.mismatch _)

end Meets
end Contract

/-! ## Programs -/

namespace Abstract

open Change

variable {settings : Settings}
variable (c : Contract settings)

/-- Wherever the pass goes over the body, a run of the body goes along. -/
def Body.Follows (body : Body) : Prop :=
  ∀ (outer : List (List String)) (names names' : List String),
    body.scope? outer names = some names' →
      (∀ piece ∈ body.pieces, c.Admits piece) →
        c.Meets (names :: outer) (body.effect settings) (names' :: outer)

variable {c}

/-- Braces say nothing of their own. -/
theorem forall_mem_braced
    (pieces : List Piece) :
    (∀ piece ∈ braced pieces, c.Admits piece) ↔ ∀ piece ∈ pieces, c.Admits piece := by
  have hopen : c.Admits (.fixed .openBrace) := ⟨nofun, nofun⟩
  have hclose : c.Admits (.fixed .closeBrace) := ⟨nofun, nofun⟩
  simp [braced, hopen, hclose, or_imp, forall_and]

theorem Body.Follows.inBlock
    {body : Body}
    {sets : List (List String)}
    (h : body.Follows c)
    (hscope : (body.scope? sets []).isSome = true)
    (hadmits : ∀ piece ∈ body.pieces, c.Admits piece) :
    c.Meets sets (Change.inBlock (body.effect settings)) sets := by
  obtain ⟨names, hnames⟩ := Option.isSome_iff_exists.1 hscope
  exact (h sets [] names hnames hadmits).inBlock

mutual

theorem Statement.meets_effect
    {outer : List (List String)}
    {names names' : List String} :
    ∀ s : Statement, s.scope? outer names = some names' →
      (∀ piece ∈ s.pieces, c.Admits piece) →
        c.Meets (names :: outer) (s.effect settings) (names' :: outer)
  | .declaration target value, hscope, hadmits => by
      rw [Statement.scope?, Option.ite_none_right_eq_some] at hscope
      obtain ⟨⟨hvalue, hnew⟩, ⟨⟩⟩ := hscope
      have hpieces : ∀ piece ∈ value.pieces, c.Admits piece := by
        intro piece hpiece
        exact hadmits piece (by simp [Statement.pieces, hpiece])
      rw [Statement.effect]
      refine .look (fun hcovers => c.yields_value hcovers hvalue hpieces) fun text hgood => ?_
      exact (Contract.Meets.declare hnew hgood).bind fun _ => .record _ _
  | .assignment target value, hscope, hadmits => by
      rw [Statement.scope?, Option.ite_none_right_eq_some] at hscope
      obtain ⟨⟨htarget, hvalue⟩, ⟨⟩⟩ := hscope
      have hpieces : ∀ piece ∈ value.pieces, c.Admits piece := by
        intro piece hpiece
        exact hadmits piece (by simp [Statement.pieces, hpiece])
      rw [Statement.effect]
      refine .look (fun hcovers => c.yields_value hcovers hvalue hpieces) fun text hgood => ?_
      exact (Contract.Meets.assign htarget hgood).bind fun _ => .record _ _
  | .transmission argument, hscope, _ => by
      rw [Statement.scope?, Option.ite_none_right_eq_some] at hscope
      obtain ⟨hargument, ⟨⟩⟩ := hscope
      rw [Statement.effect]
      exact .look (fun hcovers => c.yields_argument hcovers hargument) fun _ _ => .emit _ _
  | .reception target prompt, hscope, hadmits => by
      rw [Statement.scope?, Option.ite_none_right_eq_some] at hscope
      obtain ⟨⟨htarget, hprompt⟩, ⟨⟩⟩ := hscope
      have hreception : c.Admits (.fixed .reception) := hadmits _ (by simp [Statement.pieces])
      rw [Statement.effect]
      exact .receiveInto (hreception.reception rfl) htarget hprompt
  | .orbit guard body, hscope, hadmits => by
      rw [Statement.scope?, Option.ite_none_right_eq_some] at hscope
      obtain ⟨⟨hguard, hbody⟩, ⟨⟩⟩ := hscope
      simp only [Statement.pieces, forall_mem_braced, List.forall_mem_append,
        List.forall_mem_cons] at hadmits
      obtain ⟨⟨⟨_, hguards⟩, hbodies⟩, _⟩ := hadmits
      rw [Statement.effect]
      exact .guarded hguard hguards (body.follows.inBlock hbody hbodies) (.pure ())
  | .orbitPropel guard body otherwise, hscope, hadmits => by
      rw [Statement.scope?, Option.ite_none_right_eq_some] at hscope
      obtain ⟨⟨hguard, hbody, hotherwise⟩, ⟨⟩⟩ := hscope
      simp only [Statement.pieces, forall_mem_braced, List.forall_mem_append,
        List.forall_mem_cons] at hadmits
      obtain ⟨⟨⟨⟨_, hguards⟩, hbodies⟩, _, hothers⟩, _⟩ := hadmits
      rw [Statement.effect]
      exact .guarded hguard hguards (body.follows.inBlock hbody hbodies)
        (otherwise.follows.inBlock hotherwise hothers)
  | .orbitNavigatePropel guard body second alternative otherwise, hscope, hadmits => by
      rw [Statement.scope?, Option.ite_none_right_eq_some] at hscope
      obtain ⟨⟨hguard, hbody, hsecond, halternative, hotherwise⟩, ⟨⟩⟩ := hscope
      simp only [Statement.pieces, forall_mem_braced, List.forall_mem_append,
        List.forall_mem_cons] at hadmits
      obtain ⟨⟨⟨⟨⟨_, hguards⟩, hbodies⟩, ⟨_, hseconds⟩, halternatives⟩, _, hothers⟩, _⟩ := hadmits
      rw [Statement.effect]
      exact .guarded hguard hguards (body.follows.inBlock hbody hbodies)
        (.guarded hsecond hseconds (alternative.follows.inBlock halternative halternatives)
          (otherwise.follows.inBlock hotherwise hothers))
  | .whirl position guard body, hscope, hadmits => by
      rw [Statement.scope?, Option.ite_none_right_eq_some] at hscope
      obtain ⟨⟨hguard, hbody⟩, ⟨⟩⟩ := hscope
      simp only [Statement.pieces, forall_mem_braced, List.forall_mem_append,
        List.forall_mem_cons] at hadmits
      obtain ⟨⟨⟨_, hguards⟩, hbodies⟩, _⟩ := hadmits
      rw [Statement.effect]
      exact .whileHolds c.excess hguard hguards (body.follows.inBlock hbody hbodies) _
  | .launch position body guard, hscope, hadmits => by
      rw [Statement.scope?, Option.ite_none_right_eq_some] at hscope
      obtain ⟨⟨hbody, hguard⟩, ⟨⟩⟩ := hscope
      simp only [Statement.pieces, forall_mem_braced, List.forall_mem_append,
        List.forall_mem_cons] at hadmits
      obtain ⟨⟨⟨_, hbodies⟩, _, hguards⟩, _⟩ := hadmits
      rw [Statement.effect]
      exact .untilFails c.excess hguard hguards (body.follows.inBlock hbody hbodies) _

theorem Item.meets_effect
    {outer : List (List String)}
    {names names' : List String} :
    ∀ item : Item, item.scope? outer names = some names' →
      (∀ piece ∈ item.pieces, c.Admits piece) →
        c.Meets (names :: outer) (item.effect settings) (names' :: outer)
  | .statement s, hscope, hadmits => by
      rw [Item.scope?] at hscope
      rw [Item.pieces] at hadmits
      rw [Item.effect]
      exact s.meets_effect hscope hadmits
  | .arithmetic a, hscope, hadmits => by
      rw [Item.scope?, Option.ite_none_right_eq_some] at hscope
      obtain ⟨ha, ⟨⟩⟩ := hscope
      rw [Item.pieces] at hadmits
      rw [Item.effect]
      exact .look (fun hcovers => c.yields_arithmetic hcovers ha hadmits) fun _ _ => .pure ()

theorem Body.follows :
    ∀ body : Body, body.Follows c
  | .last item => by
      intro outer names names' hscope hadmits
      rw [Body.scope?] at hscope
      rw [Body.pieces] at hadmits
      rw [Body.effect]
      exact item.meets_effect hscope hadmits
  | .more item rest => by
      intro outer names names' hscope hadmits
      rw [Body.scope?, Option.bind_eq_some_iff] at hscope
      rw [Body.pieces, List.forall_mem_append] at hadmits
      obtain ⟨mid, hitem, hrest⟩ := hscope
      rw [Body.effect]
      exact (item.meets_effect hitem hadmits.1).bind fun _ => rest.follows _ _ _ hrest hadmits.2

end

theorem meets_items
    {names names' : List String}
    {items : List Item}
    (hscope :
      items.foldlM (fun names (item : Item) => item.scope? [] names) names = some names')
    (hadmits : ∀ piece ∈ items.flatMap Item.pieces, c.Admits piece) :
    c.Meets [names] (items.forM (·.effect settings)) [names'] := by
  induction items generalizing names with
  | nil =>
      cases hscope
      exact .pure ()
  | cons item items ih =>
      obtain ⟨mid, hitem, hrest⟩ := Option.bind_eq_some_iff.1 hscope
      rw [List.flatMap_cons, List.forall_mem_append] at hadmits
      exact (item.meets_effect hitem hadmits.1).bind fun _ => ih hrest hadmits.2

/-- A run of a well-scoped program keeps every contract that its pieces admit. -/
theorem Program.meets_effect
    {program : Program}
    (hscope : program.isWellScoped = true)
    (hadmits : ∀ piece ∈ program.pieces, c.Admits piece) :
    c.Meets [] (program.effect settings) [] := by
  cases program with
  | empty =>
      exact (Contract.Meets.pure ()).inBlock
  | items before last =>
      rw [Program.isWellScoped, Option.isSome_iff_exists] at hscope
      obtain ⟨names, hnames⟩ := hscope
      obtain ⟨mid, hbefore, hlast⟩ := Option.bind_eq_some_iff.1 hnames
      rw [Program.pieces, List.forall_mem_append] at hadmits
      exact ((meets_items hbefore hadmits.1).bind
        fun _ => last.meets_effect hlast hadmits.2).inBlock
  | arithmetic a =>
      exact (Contract.Meets.look
        (fun hcovers => c.yields_arithmetic hcovers hscope hadmits)
        fun _ _ => .pure ()).inBlock

end Abstract

/-! ## Two contracts -/

namespace Contract

/-- Any value is good, and names are not to blame. -/
def namesFound (settings : Settings) : Contract settings where
  good _ := True
  blame cause := ∀ name, cause ≠ .undeclared name ∧ cause ≠ .alreadyDeclared name
  division _ := ⟨nofun, nofun⟩
  excess _ := ⟨nofun, nofun⟩
  total _ := trivial
  whole _ _ := .inr fun _ => ⟨nofun, nofun⟩
  double _ _ := .inr fun _ => ⟨nofun, nofun⟩
  output := .inr fun _ _ => ⟨nofun, nofun⟩

/-- Values are texts of comets, and only a division by zero or a loop is to blame. -/
def cometsOnly
    (settings : Settings)
    (houtput : settings.sink.TakesAll) : Contract settings where
  good text := Numeral.isComet text = true
  blame cause := cause = .divisionByZero ∨ cause = .loopLimitExceeded settings.maxIterations
  division := .inl rfl
  excess := .inr rfl
  total := Numeral.isComet_wholeText
  whole _ h := .inl (Numeral.wholeOf?_isSome h)
  double _ h := .inl (Numeral.Double.ofText?_isSome h)
  output := .inl houtput

/-- Names are not to blame whatever is written or received. -/
theorem namesFound_admits
    (settings : Settings)
    (piece : Piece) :
    (namesFound settings).Admits piece where
  literal _ _ _ := trivial
  reception _ :=
    { numeral := fun _ => trivial
      mismatch := fun _ _ => ⟨nofun, nofun⟩
      exhausted := fun _ => ⟨nofun, nofun⟩
      io := fun _ _ => ⟨nofun, nofun⟩ }

/-- A token of which the piece asks no more than it is, is admitted as it is. -/
theorem cometsOnly_admits
    {settings : Settings}
    (houtput : settings.sink.TakesAll)
    {piece : Piece}
    {token : Token}
    (hmatches : piece.Matches token)
    (hreception : token.kind ≠ .reception)
    (hliteral : token.kind = .cometLiteral → Numeral.isComet token.value = true) :
    (cometsOnly settings houtput).Admits piece where
  literal hkind text htext := by
    have hcomet := hliteral (hmatches.kind.trans hkind)
    rwa [hmatches.value text htext] at hcomet
  reception hkind := absurd (hmatches.kind.trans hkind) hreception

end Contract

namespace Derivation

/-- What a run blames lies within the contract that the program keeps. -/
theorem blame_of_run_parse
    {program : Program}
    {tokens : List Token}
    {settings : Settings}
    {m m' : Machine}
    {fault : Fault}
    (hspells : program.Spells tokens)
    (hscope : program.isWellScoped = true)
    (c : Contract settings)
    (hadmits : ∀ piece ∈ program.pieces, c.Admits piece)
    (hrun : Machine.run settings (parse tokens).tree m = .error fault m') :
    c.blame fault.cause := by
  have hseen := simulates_parse hspells settings m
  have hends := Program.meets_effect hscope hadmits m.visible (.outside _)
  rw [← hseen, hrun] at hends
  exact hends

/--
Let an accepted program be well scoped. Then no run of its tree fails because a
name is not declared, or is declared already, whatever machine it starts on. If
moreover the program receives nothing, its literals are comets and the output
takes everything, then a run can fail only because it divides by zero or exceeds
the limit of a loop.
-/
theorem faults_of_wellScoped
    (tokens : List Token)
    (haccept : (parse tokens).verdict = .accept) :
    (∃ program : Program, program.Spells tokens) ∧
      ∀ program : Program, program.Spells tokens → program.isWellScoped = true →
        ∀ (settings : Settings) (m : Machine) (fault : Fault) (m' : Machine),
          Machine.run settings (parse tokens).tree m = .error fault m' →
            (∀ name, fault.cause ≠ .undeclared name ∧ fault.cause ≠ .alreadyDeclared name) ∧
              ((∀ token ∈ tokens, token.kind ≠ .reception ∧
                  (token.kind = .cometLiteral → Numeral.isComet token.value = true)) →
                settings.sink.TakesAll →
                  fault.cause = .divisionByZero ∨
                    fault.cause = .loopLimitExceeded settings.maxIterations) := by
  refine ⟨exists_program (program_of_accepted haccept), ?_⟩
  intro program hspells hscope settings m fault m' hrun
  constructor
  · exact blame_of_run_parse hspells hscope (.namesFound settings)
      (fun piece _ => Contract.namesFound_admits settings piece) hrun
  · intro htokens houtput
    refine blame_of_run_parse hspells hscope (.cometsOnly settings houtput) ?_ hrun
    intro piece hpiece
    obtain ⟨token, htoken, hmatches⟩ := exists_matching hspells hpiece
    exact Contract.cometsOnly_admits houtput hmatches (htokens token htoken).1
      (htokens token htoken).2

/-- `Comet x = 5; Launch { Comet x = x / 0; } Whirl (x > 0);` -/
def shadowingLoop : Program :=
  .items
    [.statement (.declaration ⟨"x", .unknown⟩ (.operand (.literal "5" .unknown)))]
    (.launch .unknown
      (.last (.statement (.declaration ⟨"x", .unknown⟩
        (.arithmetic ⟨.name ⟨"x", .unknown⟩, ⟨.divide .unknown, .literal "0" .unknown⟩, []⟩))))
      ⟨⟨.name ⟨"x", .unknown⟩, .greater, .literal "0" .unknown⟩, []⟩)

/--
A loop whose body shadows the name that it reads is well scoped, and the guard
behind it means the outer name. Its run fails, and names are not to blame.
-/
theorem faults_of_shadowingLoop :
    (parse shadowingLoop.spelling).verdict = .accept ∧
      shadowingLoop.isWellScoped = true ∧
      ∃ fault m',
        Machine.run {} (parse shadowingLoop.spelling).tree (.fresh []) = .error fault m' ∧
          (∀ name, fault.cause ≠ .undeclared name ∧ fault.cause ≠ .alreadyDeclared name) ∧
          (fault.cause = .divisionByZero ∨ fault.cause = .loopLimitExceeded 200) := by
  have hspells := shadowingLoop.spells_spelling
  have haccept := (Program.exists_carries _ hspells).1
  have hscope : shadowingLoop.isWellScoped = true := by decide
  refine ⟨haccept, hscope, ?_⟩
  cases hrun : Machine.run {} (parse shadowingLoop.spelling).tree (.fresh []) with
  | ok a m' =>
      have hseen := simulates_parse hspells {} (.fresh [])
      rw [hrun] at hseen
      cases hseen
  | error fault m' =>
      obtain ⟨hnames, honly⟩ :=
        (faults_of_wellScoped _ haccept).2 _ hspells hscope {} _ fault m' hrun
      exact ⟨fault, m', rfl, hnames, honly (by decide) fun _ _ _ => rfl⟩

end Derivation
end CometLang
