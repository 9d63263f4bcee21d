import CometLang.Machine.Execution

/-!
# Relations that every run keeps

An action leaves a machine behind however it ends. A relation between machines
is kept by an action if it holds between the machine before and the machine
after, on success and on every fault.

A run is put together from a few steps that change the machine: a name is
declared or assigned to, output is written, a line is read, something is noted
in the log, and a frame is opened and closed around a body. A relation that
lasts through these lasts through the run of every tree, well formed or not.
-/

namespace CometLang

namespace Action

variable {α β : Type}

/-- The machine that the action leaves behind, however it ends. -/
def after
    (action : Action α)
    (m : Machine) : Machine :=
  match action m with
  | .ok _ m' => m'
  | .error _ m' => m'

/-- The relation holds between the machines before and after the action. -/
def Keeps
    (R : Machine → Machine → Prop)
    (action : Action α) : Prop :=
  ∀ m, R m (action.after m)

theorem after_of_ok
    {action : Action α}
    {m m' : Machine}
    {a : α}
    (h : action m = .ok a m') :
    action.after m = m' := by
  rw [after, h]

theorem after_of_error
    {action : Action α}
    {m m' : Machine}
    {fault : Fault}
    (h : action m = .error fault m') :
    action.after m = m' := by
  rw [after, h]

/-- An action and what follows it, if it ends well, leave one machine behind. -/
theorem after_bind
    (action : Action α)
    (next : α → Action β)
    (m : Machine) :
    (action >>= next).after m
      = match action m with
        | .ok a m' => (next a).after m'
        | .error _ m' => m' := by
  change (match EStateM.bind action next m with | .ok _ m' => m' | .error _ m' => m') = _
  rw [EStateM.bind]
  cases action m <;> rfl

section

variable {action : Action α} {next : α → Action β} {m m' : Machine}

theorem bind_of_ok
    {a : α}
    (h : action m = .ok a m') :
    (action >>= next) m = next a m' := by
  change EStateM.bind action next m = _
  rw [EStateM.bind, h]

theorem bind_of_error
    {fault : Fault}
    (h : action m = .error fault m') :
    (action >>= next) m = .error fault m' := by
  change EStateM.bind action next m = _
  rw [EStateM.bind, h]

/-- What ends well has ended well on the way. -/
theorem bind_eq_ok
    {b : β}
    (h : (action >>= next) m = .ok b m') :
    ∃ a between, action m = .ok a between ∧ next a between = .ok b m' := by
  cases hfirst : action m with
  | ok a between =>
      rw [bind_of_ok hfirst] at h
      exact ⟨a, between, rfl, h⟩
  | error fault between =>
      rw [bind_of_error hfirst] at h
      cases h

/-- A fault comes from the first action or from the one behind it. -/
theorem bind_eq_error
    {fault : Fault}
    (h : (action >>= next) m = .error fault m') :
    action m = .error fault m' ∨
      ∃ a between, action m = .ok a between ∧ next a between = .error fault m' := by
  cases hfirst : action m with
  | ok a between =>
      rw [bind_of_ok hfirst] at h
      exact .inr ⟨a, between, rfl, h⟩
  | error other between =>
      rw [bind_of_error hfirst] at h
      cases h
      exact .inl rfl

end

/-- What was found before goes on at once. -/
theorem ofExcept_ok_bind
    (a : α)
    (next : α → Action β) :
    (ofExcept (.ok a) >>= next) = next a :=
  rfl

/-- Reading the scopes changes nothing. -/
theorem after_ofScopes
    (read : Scopes → Except Fault α)
    (m : Machine) :
    (ofScopes read).after m = m := by
  rw [after, ofScopes]
  cases read m.scopes <;> rfl

/-- The frame of a body is closed however the body ends. -/
theorem after_inFrame
    (body : Action Unit)
    (m : Machine) :
    (inFrame body).after m = (body.after m.enter).leave := by
  rw [after, inFrame, after]
  cases body m.enter <;> rfl

section

variable (name value : String) (position : Position) (m : Machine)

/-- A declaration fails and changes nothing, or it changes the scopes and the log. -/
theorem declare_cases :
    (∃ fault, declare name value position m = .error fault m) ∨
      ∃ scopes log,
        m.scopes.declare name value position = .ok scopes ∧
          declare name value position m = .ok () { m with scopes := scopes, log := log } := by
  rw [declare]
  cases m.scopes.declare name value position with
  | error fault =>
      exact .inl ⟨fault, rfl⟩
  | ok scopes =>
      by_cases hempty : m.scopes.frames.isEmpty = true
      · refine .inr ⟨scopes, .entered 1 :: m.log, rfl, ?_⟩
        simp only [if_pos hempty, Machine.note]
      · refine .inr ⟨scopes, m.log, rfl, ?_⟩
        simp only [if_neg hempty]

/-- An assignment fails and changes nothing, or it changes the scopes. -/
theorem assign_cases :
    (∃ fault, assign name value position m = .error fault m) ∨
      ∃ scopes,
        m.scopes.assign name value position = .ok scopes ∧
          assign name value position m = .ok () { m with scopes := scopes } := by
  rw [assign]
  cases m.scopes.assign name value position with
  | error fault =>
      exact .inl ⟨fault, rfl⟩
  | ok scopes =>
      exact .inr ⟨scopes, rfl, rfl⟩

end

/-- Writing only adds to the output. -/
theorem after_write
    (settings : Settings)
    (text : String)
    (position : Position)
    (m : Machine) :
    ∃ written : List UInt8,
      (write settings text position).after m = { m with output := m.output ++ written } := by
  rw [after, write]
  cases settings.sink.refusal? m.output m.flushes text.toUTF8.toList with
  | none =>
      exact ⟨_, rfl⟩
  | some refusal =>
      exact ⟨_, rfl⟩

/-- Where nothing is refused, the whole text is written. -/
theorem write_of_takesAll
    {settings : Settings}
    (text : String)
    (position : Position)
    (m : Machine)
    (h : settings.sink.TakesAll) :
    write settings text position m
      = .ok () { m with output := m.output ++ text.toUTF8.toList } := by
  rw [write, h]

/-- A flush is counted, whether or not it fails. -/
theorem after_flush
    (settings : Settings)
    (position : Position)
    (m : Machine) :
    (flush settings position).after m = { m with flushes := m.flushes + 1 } := by
  rw [after, flush]
  cases settings.sink.flushError? m.output m.flushes <;> rfl

/-- Reading a line takes it from the input, whether or not it can be used. -/
theorem after_readLine
    (position : Position)
    (m : Machine) :
    (readLine position).after m = { m with input := (Machine.splitLine m.input).2 } := by
  simp only [after, readLine]
  by_cases hempty : (Machine.splitLine m.input).1.isEmpty = true
  · simp only [if_pos hempty]
  · simp only [if_neg hempty]
    cases String.fromUTF8? ⟨(Machine.splitLine m.input).1.toArray⟩ <;> rfl

/-- What two actions keep is kept by one after the other. -/
theorem Keeps.bind
    {R : Machine → Machine → Prop}
    {action : Action α}
    {next : α → Action β}
    (htrans : ∀ {a b c}, R a b → R b c → R a c)
    (h : action.Keeps R)
    (hnext : ∀ a, (next a).Keeps R) :
    (action >>= next).Keeps R := by
  intro m
  have hfirst := h m
  rw [after_bind]
  cases hend : action m with
  | ok a m' =>
      rw [after_of_ok hend] at hfirst
      exact htrans hfirst (hnext a m')
  | error fault m' =>
      rw [after_of_error hend] at hfirst
      exact hfirst

end Action

namespace Machine

open Action

/-- A relation that can be chained and does not look at the log. -/
structure Noting (R : Machine → Machine → Prop) : Prop where
  refl : ∀ m, R m m
  trans : ∀ {a b c}, R a b → R b c → R a c
  note : ∀ m event, R m (m.note event)

namespace Noting

variable {R : Machine → Machine → Prop}

theorem keeps_bind
    {α β : Type}
    {action : Action α}
    {next : α → Action β}
    (h : Noting R)
    (haction : action.Keeps R)
    (hnext : ∀ a, (next a).Keeps R) :
    (action >>= next).Keeps R :=
  haction.bind h.trans hnext

theorem keeps_pure
    {α : Type}
    (h : Noting R)
    (a : α) :
    (pure a : Action α).Keeps R :=
  h.refl

theorem keeps_throw
    {α : Type}
    (h : Noting R)
    (fault : Fault) :
    (throw fault : Action α).Keeps R :=
  h.refl

theorem keeps_note
    (h : Noting R)
    (event : Event) :
    (Action.note event).Keeps R := by
  intro m
  exact h.note m event

theorem keeps_ofScopes
    {α : Type}
    (h : Noting R)
    (read : Scopes → Except Fault α) :
    (ofScopes read).Keeps R := by
  intro m
  rw [after_ofScopes]
  exact h.refl m

theorem keeps_ofExcept
    {α : Type}
    (h : Noting R)
    (result : Except Fault α) :
    (ofExcept result).Keeps R :=
  h.keeps_ofScopes _

/-! ## Values and texts -/

theorem keeps_arithmeticValue
    (h : Noting R)
    (t : Tree) :
    (arithmeticValue t).Keeps R := by
  intro m
  -- Evaluating only notes its steps, one after the other.
  have hnotes (steps : List Evaluation.Step) (m' : Machine) (hm' : R m m') :
      R m (steps.foldl (fun m step => m.note (.computed step)) m') := by
    induction steps generalizing m' with
    | nil =>
        exact hm'
    | cons step steps ih =>
        exact ih _ (h.trans hm' (h.note m' _))
  have hafter :
      (arithmeticValue t).after m
        = (Evaluation.compute t m.scopes).1.foldl (fun m step => m.note (.computed step)) m := by
    rw [after, arithmeticValue]
    obtain ⟨steps, result⟩ := Evaluation.compute t m.scopes
    cases result <;> rfl
  rw [hafter]
  exact hnotes _ m (h.refl m)

theorem keeps_identifierText
    (h : Noting R)
    (t : Tree) :
    (identifierText t).Keeps R :=
  h.keeps_bind (h.keeps_ofExcept _) fun _ => h.keeps_ofScopes _

theorem keeps_valueText
    (h : Noting R)
    (t : Tree) :
    (valueText t).Keeps R := by
  rw [valueText]
  split
  · exact h.keeps_identifierText t
  · exact h.keeps_bind (h.keeps_ofExcept _) fun token => h.keeps_pure token.value
  · exact h.keeps_bind (h.keeps_arithmeticValue t) fun value => h.keeps_pure _
  · exact h.keeps_throw _

theorem keeps_argumentText?
    (h : Noting R)
    (io : Tree) :
    (argumentText? io).Keeps R := by
  rw [argumentText?]
  split
  · exact h.keeps_bind (h.keeps_ofExcept _) fun token => h.keeps_pure _
  · split
    · rw [map_eq_pure_bind]
      exact h.keeps_bind (h.keeps_identifierText _) fun text => h.keeps_pure _
    · exact h.keeps_pure none

theorem keeps_runArithmetic
    (h : Noting R)
    (t : Tree) :
    (runArithmetic t).Keeps R :=
  h.keeps_bind (h.keeps_arithmeticValue t) fun _ => h.keeps_note _

end Noting

/-- Besides, the relation holds across every step that changes a machine. -/
structure Stepping
    (settings : Settings)
    (R : Machine → Machine → Prop) : Prop extends Noting R where
  declare :
    ∀ name value position,
      Keeps R (do
        Action.declare name value position
        modify (·.record name value))
  assign :
    ∀ name value position,
      Keeps R (do
        Action.assign name value position
        modify (·.record name value))
  write : ∀ text position, (Action.write settings text position).Keeps R
  flush : ∀ position, (Action.flush settings position).Keeps R
  readLine : ∀ position, (Action.readLine position).Keeps R

namespace Stepping

variable {settings : Settings} {R : Machine → Machine → Prop}

/-! ## Simple statements -/

theorem keeps_runDeclaration
    (h : Stepping settings R)
    (t : Tree) :
    (runDeclaration t).Keeps R := by
  refine h.keeps_bind (h.keeps_ofExcept _) fun (target, right) => ?_
  refine h.keeps_bind (h.keeps_valueText right) fun value => ?_
  rw [← bind_assoc]
  exact h.keeps_bind (h.declare target.value value target.position) fun _ => h.keeps_note _

theorem keeps_runAssignment
    (h : Stepping settings R)
    (t : Tree) :
    (runAssignment t).Keeps R := by
  refine h.keeps_bind (h.keeps_ofExcept _) fun (target, right) => ?_
  refine h.keeps_bind (h.keeps_valueText right) fun value => ?_
  rw [← bind_assoc]
  exact h.keeps_bind (h.assign target.value value target.position) fun _ => h.keeps_note _

theorem keeps_runTransmission
    (h : Stepping settings R)
    (t : Tree) :
    (runTransmission settings t).Keeps R := by
  refine h.keeps_bind (h.keeps_ofExcept _) fun io => ?_
  refine h.keeps_bind (h.keeps_argumentText? io) fun text => ?_
  cases text with
  | some text =>
      exact h.write _ _
  | none =>
      exact h.keeps_throw _

theorem keeps_runReception
    (h : Stepping settings R)
    (t : Tree) :
    (runReception settings t).Keeps R := by
  refine h.keeps_bind (h.keeps_ofExcept _) fun child => ?_
  refine h.keeps_bind (h.keeps_ofExcept _) fun target => ?_
  refine h.keeps_bind (h.keeps_ofScopes _) fun _ => ?_
  refine h.keeps_bind (h.keeps_ofExcept _) fun io => ?_
  refine h.keeps_bind (h.keeps_argumentText? io) fun argument => ?_
  refine h.keeps_bind (h.write _ _) fun _ => ?_
  refine h.keeps_bind (h.flush _) fun _ => ?_
  refine h.keeps_bind (h.readLine _) fun line => ?_
  dsimp only
  split
  · rw [← bind_assoc]
    exact h.keeps_bind (h.assign target.value _ target.position) fun _ => h.keeps_note _
  · exact h.keeps_throw _

end Stepping

/-- A relation that lasts: a frame opened and closed around it does not break it either. -/
structure Lasting
    (settings : Settings)
    (R : Machine → Machine → Prop) : Prop extends Stepping settings R where
  frame : ∀ {m m'}, R m.enter m' → R m m'.leave

namespace Lasting

variable {settings : Settings} {R : Machine → Machine → Prop}

theorem keeps_inFrame
    {body : Action Unit}
    (h : Lasting settings R)
    (hbody : body.Keeps R) :
    (inFrame body).Keeps R := by
  intro m
  rw [after_inFrame]
  exact h.frame (hbody m.enter)

/-! ## Branches and loops -/

/-- A guard is looked at, and one of two things is done. -/
theorem keeps_guarded
    {α : Type}
    {first second : Action α}
    (h : Lasting settings R)
    (guard : Tree)
    (hfirst : first.Keeps R)
    (hsecond : second.Keeps R) :
    Keeps R (do
      if ← holds guard then
        first
      else
        second) := by
  refine h.keeps_bind (h.keeps_ofScopes _) fun truth => ?_
  cases truth with
  | true =>
      exact hfirst
  | false =>
      exact hsecond

/-- By induction on how often the body may still run. -/
theorem keeps_repeatWhile
    {body : Action Unit}
    (h : Lasting settings R)
    (fault : Fault)
    (guard : Tree)
    (hbody : body.Keeps R)
    (count : Nat) :
    (repeatWhile fault (holds guard) body count).Keeps R := by
  induction count with
  | zero =>
      exact h.keeps_guarded guard (h.keeps_throw fault) (h.keeps_pure 0)
  | succ count ih =>
      exact h.keeps_guarded guard (h.keeps_bind (h.keeps_inFrame hbody) fun _ => ih)
        (h.keeps_pure (count + 1))

/-- By induction on how often the body may still run. -/
theorem keeps_repeatUntil
    {body : Action Unit}
    (h : Lasting settings R)
    (fault : Fault)
    (guard : Tree)
    (hbody : body.Keeps R)
    (count : Nat) :
    (repeatUntil fault (holds guard) body count).Keeps R := by
  induction count with
  | zero =>
      exact h.keeps_throw fault
  | succ count ih =>
      exact h.keeps_bind (h.keeps_inFrame hbody) fun _ =>
        h.keeps_guarded guard ih (h.keeps_pure count)

theorem keeps_runPropel
    {body : Action Unit}
    (h : Lasting settings R)
    (t : Tree)
    (hbody : body.Keeps R) :
    (runPropel t body).Keeps R := by
  rw [runPropel]
  cases t.child? .propelStmt with
  | none =>
      exact h.keeps_pure ()
  | some branch =>
      exact h.keeps_bind (h.keeps_ofExcept _) fun _ => h.keeps_inFrame hbody

theorem keeps_runOrbit
    {body navigateBody propelBody : Action Unit}
    (h : Lasting settings R)
    (t : Tree)
    (hbody : body.Keeps R)
    (hnavigate : navigateBody.Keeps R)
    (hpropel : propelBody.Keeps R) :
    (runOrbit t body navigateBody propelBody).Keeps R := by
  refine h.keeps_bind (h.keeps_ofExcept _) fun guard => ?_
  refine h.keeps_guarded guard (h.keeps_inFrame hbody) ?_
  cases t.child? .navigateStmt with
  | none =>
      exact h.keeps_runPropel t hpropel
  | some branch =>
      refine h.keeps_bind (h.keeps_ofExcept _) fun guard => ?_
      exact h.keeps_guarded guard (h.keeps_inFrame hnavigate) (h.keeps_runPropel t hpropel)

theorem keeps_runWhirl
    {body : Action Unit}
    (h : Lasting settings R)
    (t : Tree)
    (hbody : body.Keeps R) :
    (runWhirl settings t body).Keeps R := by
  refine h.keeps_bind (h.keeps_ofExcept _) fun guard => ?_
  exact h.keeps_bind (h.keeps_repeatWhile _ guard hbody _) fun left => h.keeps_note _

theorem keeps_runLaunch
    {body : Action Unit}
    (h : Lasting settings R)
    (t : Tree)
    (hbody : body.Keeps R) :
    (runLaunch settings t body).Keeps R := by
  refine h.keeps_bind (h.keeps_ofExcept _) fun guard => ?_
  exact h.keeps_bind (h.keeps_repeatUntil _ guard hbody _) fun left => h.keeps_note _

/-! ## Trees -/

mutual

/-- A relation that lasts is kept by the run of every tree. -/
theorem keeps_run
    (h : Lasting settings R) :
    ∀ t, (run settings t).Keeps R
  | .node label children => by
      cases label with
      | program =>
          rw [run]
          exact h.keeps_inFrame (keeps_runAll h children)
      | token token =>
          rw [run]
          exact h.keeps_pure ()
      | nonterminal form =>
          cases form with
          | decStmt =>
              rw [run]
              exact h.keeps_runDeclaration _
          | assignStmt =>
              rw [run]
              exact h.keeps_runAssignment _
          | transmissionStmt =>
              rw [run]
              exact h.keeps_runTransmission _
          | receptionStmt =>
              rw [run]
              exact h.keeps_runReception _
          | arithExp =>
              rw [run]
              exact h.keeps_runArithmetic _
          | orbitStmt =>
              rw [run]
              exact h.keeps_runOrbit _ (keeps_runBody h children)
                (keeps_runBranch h .navigateStmt children)
                (keeps_runBranch h .propelStmt children)
          | whirlLoop =>
              rw [run]
              exact h.keeps_runWhirl _ (keeps_runBody h children)
          | launchWhirlLoop =>
              rw [run]
              exact h.keeps_runLaunch _ (keeps_runBody h children)
          | _ =>
              rw [run]
              · exact keeps_runAll h children
              all_goals simp

theorem keeps_runAll
    (h : Lasting settings R) :
    ∀ trees, (runAll settings trees).Keeps R
  | [] => by
      rw [runAll]
      exact h.keeps_pure ()
  | t :: rest => by
      rw [runAll]
      exact h.keeps_bind (keeps_run h t) fun _ => keeps_runAll h rest

theorem keeps_runBody
    (h : Lasting settings R) :
    ∀ trees, (runBody settings trees).Keeps R
  | [] => by
      rw [runBody]
      exact h.keeps_pure ()
  | .node label children :: rest => by
      rw [runBody]
      split
      · exact keeps_runAll h children
      · exact keeps_runBody h rest

theorem keeps_runBranch
    (h : Lasting settings R)
    (form : Nonterminal) :
    ∀ trees, (runBranch settings form trees).Keeps R
  | [] => by
      rw [runBranch]
      exact h.keeps_pure ()
  | .node label children :: rest => by
      rw [runBranch]
      split
      · exact keeps_runBody h children
      · exact keeps_runBranch h form rest

end

end Lasting
end Machine
end CometLang
