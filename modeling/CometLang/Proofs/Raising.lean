import Mathlib.Data.List.TakeDrop
import CometLang.Derivation.Parse
import CometLang.Proofs.Abstract
import CometLang.Proofs.Lasting

/-!
# A higher limit of iterations

All loops of a run count against one limit. Under a higher limit the same things
are done until a loop is stopped, and from there on more may be done. So the run
under the lower limit is an abridgement of the other: it ends in the same way
and leaves the same machine behind, unless it was stopped by the limit.

What was written and read before a loop is stopped is written and read under the
higher limit as well, and a run never takes any of it back.
-/

namespace CometLang

/-- A loop has run its body too often. -/
def Cause.isLoopLimit : Cause → Bool
  | loopLimitExceeded _ => true
  | _ => false

/-- The settings with so many more iterations allowed. -/
def Settings.raised
    (settings : Settings)
    (extra : Nat) : Settings :=
  { settings with maxIterations := settings.maxIterations + extra }

/-! ## What cannot be taken back -/

namespace Machine

open Action

/-- What was written is still written, and what was read is still read. -/
structure Continues (m m' : Machine) : Prop where
  output : m.output.toList <+: m'.output.toList
  input : m'.input <:+ m.input

/-- A line and what is behind it make up the input. -/
theorem splitLine_append
    (input : List UInt8) :
    (splitLine input).1 ++ (splitLine input).2 = input := by
  have hsplit := List.takeWhile_append_dropWhile (p := (· != 10)) (l := input)
  rw [splitLine, List.span_eq_takeWhile_dropWhile]
  cases hrest : input.dropWhile (· != 10) with
  | nil =>
      rw [hrest] at hsplit
      exact hsplit
  | cons newline rest =>
      rw [hrest] at hsplit
      simpa using hsplit

/-- Closing a frame writes nothing. -/
theorem output_leave
    (m : Machine) :
    m.leave.output = m.output := by
  rw [leave]
  cases m.scopes.frames <;> rfl

/-- Closing a frame reads nothing. -/
theorem input_leave
    (m : Machine) :
    m.leave.input = m.input := by
  rw [leave]
  cases m.scopes.frames <;> rfl

namespace Continues

theorem refl
    (m : Machine) :
    m.Continues m :=
  ⟨List.prefix_refl _, List.suffix_refl _⟩

theorem trans
    {a b c : Machine}
    (h : a.Continues b)
    (h' : b.Continues c) :
    a.Continues c :=
  ⟨h.output.trans h'.output, h'.input.trans h.input⟩

/-- Closing a frame on both sides changes nothing. -/
theorem leave
    {m m' : Machine}
    (h : m.Continues m') :
    m.leave.Continues m'.leave := by
  refine ⟨?_, ?_⟩
  · rw [output_leave, output_leave]
    exact h.output
  · rw [input_leave, input_leave]
    exact h.input

/-- Actions that neither write nor read. -/
theorem of_eq
    {α : Type}
    {action : Action α}
    (h : ∀ m, (action.after m).output = m.output ∧ (action.after m).input = m.input) :
    action.Keeps Continues := by
  intro m
  obtain ⟨houtput, hinput⟩ := h m
  constructor
  · exact ⟨[], by rw [List.append_nil, houtput]⟩
  · exact ⟨[], by rw [List.nil_append, hinput]⟩

theorem keeps_declare
    (name value : String)
    (position : Position) :
    (Action.declare name value position).Keeps Continues := by
  refine of_eq fun m => ?_
  rcases declare_cases name value position m with ⟨fault, hend⟩ | ⟨scopes, log, -, hend⟩
  · rw [after_of_error hend]
    exact ⟨rfl, rfl⟩
  · rw [after_of_ok hend]
    exact ⟨rfl, rfl⟩

theorem keeps_assign
    (name value : String)
    (position : Position) :
    (Action.assign name value position).Keeps Continues := by
  refine of_eq fun m => ?_
  rcases assign_cases name value position m with ⟨fault, hend⟩ | ⟨scopes, -, hend⟩
  · rw [after_of_error hend]
    exact ⟨rfl, rfl⟩
  · rw [after_of_ok hend]
    exact ⟨rfl, rfl⟩

theorem keeps_record
    (name value : String) :
    (modify (·.record name value) : Action Unit).Keeps Continues :=
  of_eq fun _ => ⟨rfl, rfl⟩

/-- No run takes back what it has written, or reads anything twice. -/
theorem lasting
    (settings : Settings) :
    Lasting settings Continues where
  refl := refl
  trans := trans
  note m event := ⟨List.prefix_refl _, List.suffix_refl _⟩
  frame := by
    intro m m' h
    refine ⟨?_, ?_⟩
    · rw [output_leave]
      exact h.output
    · rw [input_leave]
      exact h.input
  declare name value position :=
    (keeps_declare name value position).bind trans fun _ => keeps_record name value
  assign name value position :=
    (keeps_assign name value position).bind trans fun _ => keeps_record name value
  write text position := by
    intro m
    obtain ⟨written, hafter⟩ := after_write settings text position m
    rw [hafter]
    exact ⟨by simp, List.suffix_refl _⟩
  flush position := of_eq fun m => by
    rw [after_flush]
    exact ⟨rfl, rfl⟩
  readLine position := by
    intro m
    rw [after_readLine]
    exact ⟨List.prefix_refl _, _, splitLine_append m.input⟩

end Continues
end Machine

/-! ## Abridgements -/

namespace Action

open Machine

variable {α β γ γ' : Type}

/--
The action does what the whole one does and ends in the same way, but for what
is carried over to its result; or it is stopped by the limit, and the whole one
goes on from there. The whole one takes nothing back.
-/
structure Abridges
    (carry : α → β)
    (action : Action α)
    (whole : Action β) : Prop where
  keeps : whole.Keeps Continues
  ok :
    ∀ {m a m'}, action m = .ok a m' → whole m = .ok (carry a) m'
  error :
    ∀ {m fault m'}, action m = .error fault m' →
      whole m = .error fault m' ∨
        fault.cause.isLoopLimit = true ∧ m'.Continues (whole.after m)

namespace Abridges

/-- An action that knows of no limit. -/
theorem refl
    {action : Action α}
    (h : action.Keeps Continues) :
    Abridges id action action where
  keeps := h
  ok hend := hend
  error hend := .inl hend

theorem pure
    (carry : α → β)
    (a : α) :
    Abridges carry (Pure.pure a) (Pure.pure (carry a)) where
  keeps := (Continues.lasting {}).keeps_pure _
  ok hend := by
    cases hend
    rfl
  error hend := by
    cases hend

/-- Where the limit stops an action, the whole one may do what it likes. -/
theorem stopped
    {fault : Fault}
    {whole : Action β}
    (carry : α → β)
    (hlimit : fault.cause.isLoopLimit = true)
    (h : whole.Keeps Continues) :
    Abridges carry (throw fault) whole where
  keeps := h
  ok hend := by
    cases hend
  error hend := by
    cases hend
    exact .inr ⟨hlimit, h _⟩

/-- One after the other; what comes later takes nothing back. -/
theorem bind
    {carry : α → β}
    {carry' : γ → γ'}
    {action : Action α}
    {whole : Action β}
    {next : α → Action γ}
    {next' : β → Action γ'}
    (h : Abridges carry action whole)
    (hnext : ∀ a, Abridges carry' (next a) (next' (carry a)))
    (hkeeps : ∀ b, (next' b).Keeps Continues) :
    Abridges carry' (action >>= next) (whole >>= next') where
  keeps := h.keeps.bind .trans hkeeps
  ok hend := by
    obtain ⟨a, between, hfirst, hrest⟩ := bind_eq_ok hend
    rw [bind_of_ok (h.ok hfirst)]
    exact (hnext a).ok hrest
  error {m fault m'} hend := by
    rcases bind_eq_error hend with hfirst | ⟨a, between, hfirst, hrest⟩
    · rcases h.error hfirst with hsame | ⟨hlimit, hcontinues⟩
      · exact .inl (bind_of_error hsame)
      · refine .inr ⟨hlimit, hcontinues.trans ?_⟩
        rw [after_bind]
        cases hwhole : whole m with
        | ok b between =>
            rw [after_of_ok hwhole]
            exact hkeeps b between
        | error other between =>
            rw [after_of_error hwhole]
            exact .refl between
    · have hwhole := h.ok hfirst
      rw [bind_of_ok hwhole, after_bind, hwhole]
      exact (hnext a).error hrest

/-- One after the other, with nothing carried over in between. -/
theorem andThen
    {carry : β → γ}
    {action whole : Action α}
    {next : α → Action β}
    {next' : α → Action γ}
    (h : Abridges id action whole)
    (hnext : ∀ a, Abridges carry (next a) (next' a)) :
    Abridges carry (action >>= next) (whole >>= next') :=
  h.bind hnext fun a => (hnext a).keeps

/-- What is read from the scopes is the same on both sides. -/
theorem reading
    {read : Scopes → Except Fault α}
    {carry : β → γ}
    {next : α → Action β}
    {next' : α → Action γ}
    (hnext : ∀ a, Abridges carry (next a) (next' a)) :
    Abridges carry (ofScopes read >>= next) (ofScopes read >>= next') :=
  (refl ((Continues.lasting {}).keeps_ofScopes read)).andThen hnext

theorem inFrame
    {body body' : Action Unit}
    (h : Abridges id body body') :
    Abridges id (Action.inFrame body) (Action.inFrame body') where
  keeps := (Continues.lasting {}).keeps_inFrame h.keeps
  ok {m a m'} hend := by
    rw [Action.inFrame] at hend ⊢
    cases hbody : body m.enter with
    | ok _ between =>
        rw [hbody] at hend
        cases hend
        rw [h.ok hbody]
    | error fault between =>
        rw [hbody] at hend
        cases hend
  error {m fault m'} hend := by
    rw [Action.inFrame] at hend
    cases hbody : body m.enter with
    | ok _ between =>
        rw [hbody] at hend
        cases hend
    | error other between =>
        rw [hbody] at hend
        cases hend
        rcases h.error hbody with hsame | ⟨hlimit, hcontinues⟩
        · rw [Action.inFrame, hsame]
          exact .inl rfl
        · rw [after_inFrame]
          exact .inr ⟨hlimit, hcontinues.leave⟩

end Abridges
end Action

/-! ## Loops -/

namespace Machine

open Action

/-- A guard is looked at, and one of two things is done. -/
theorem abridges_guarded
    {α β : Type}
    {carry : α → β}
    {first second : Action α}
    {first' second' : Action β}
    (guard : Tree)
    (hfirst : Abridges carry first first')
    (hsecond : Abridges carry second second') :
    Abridges carry
      (do
        if ← holds guard then
          first
        else
          second)
      (do
        if ← holds guard then
          first'
        else
          second') := by
  refine .reading fun truth => ?_
  cases truth with
  | true =>
      exact hfirst
  | false =>
      exact hsecond

section

variable {fault fault' : Fault} {body body' : Action Unit}
variable (hlimit : fault.cause.isLoopLimit = true)
variable (hbody : Abridges id body body')
variable (guard : Tree)

include hlimit hbody

/-- With so many more runs allowed, so many more are left, by induction on the runs. -/
theorem abridges_repeatWhile
    (count extra : Nat) :
    Abridges (· + extra) (repeatWhile fault (holds guard) body count)
      (repeatWhile fault' (holds guard) body' (count + extra)) := by
  have hlasting := Continues.lasting {}
  induction count with
  | zero =>
      -- The limit stops the loop here, and the other one may still have runs left.
      have hpure := Abridges.pure (· + extra) 0
      cases extra with
      | zero =>
          exact abridges_guarded guard (.stopped _ hlimit (hlasting.keeps_throw fault')) hpure
      | succ extra =>
          have hmore : Keeps Continues (do
              Action.inFrame body'
              repeatWhile fault' (holds guard) body' (0 + extra)) :=
            hlasting.keeps_bind hbody.inFrame.keeps fun _ =>
              hlasting.keeps_repeatWhile fault' guard hbody.keeps (0 + extra)
          exact abridges_guarded guard (.stopped _ hlimit hmore) hpure
  | succ count ih =>
      have hpure := Abridges.pure (· + extra) (count + 1)
      rw [Nat.succ_add_eq_add_succ] at hpure ⊢
      exact abridges_guarded guard (hbody.inFrame.andThen fun _ => ih) hpure

/-- As with the other loop; here the limit stops it before the body. -/
theorem abridges_repeatUntil
    (count extra : Nat) :
    Abridges (· + extra) (repeatUntil fault (holds guard) body count)
      (repeatUntil fault' (holds guard) body' (count + extra)) := by
  induction count with
  | zero =>
      have hlasting := Continues.lasting {}
      exact .stopped _ hlimit (hlasting.keeps_repeatUntil fault' guard hbody.keeps (0 + extra))
  | succ count ih =>
      have hpure := Abridges.pure (· + extra) count
      rw [Nat.succ_add_eq_add_succ]
      exact hbody.inFrame.andThen fun _ => abridges_guarded guard ih hpure

end

/-- How many runs were made does not depend on how many more were allowed. -/
theorem abridges_runs
    {extra : Nat}
    {loop loop' : Action Nat}
    (h : Abridges (· + extra) loop loop')
    (count : Nat)
    (event : Nat → Event) :
    Abridges id (do Action.note (event (count - (← loop))))
      (do Action.note (event (count + extra - (← loop')))) := by
  have hnote (runs : Nat) : (Action.note (event runs)).Keeps Continues :=
    (Continues.lasting {}).keeps_note _
  refine h.bind (fun left => ?_) fun left => hnote _
  rw [Nat.add_sub_add_right]
  exact .refl (hnote _)

/-! ## Trees -/

section

variable {body body' : Action Unit}
variable (t : Tree)
variable (hbody : Abridges id body body')

include hbody

theorem abridges_runPropel :
    Abridges id (runPropel t body) (runPropel t body') := by
  rw [runPropel, runPropel]
  cases t.child? .propelStmt with
  | none =>
      exact .pure id ()
  | some branch =>
      exact .reading fun _ => hbody.inFrame

theorem abridges_runOrbit
    {navigateBody navigateBody' propelBody propelBody' : Action Unit}
    (hnavigate : Abridges id navigateBody navigateBody')
    (hpropel : Abridges id propelBody propelBody') :
    Abridges id (runOrbit t body navigateBody propelBody)
      (runOrbit t body' navigateBody' propelBody') := by
  have hlast := abridges_runPropel t hpropel
  refine .reading fun guard => ?_
  refine abridges_guarded guard hbody.inFrame ?_
  cases t.child? .navigateStmt with
  | none =>
      exact hlast
  | some branch =>
      refine .reading fun guard => ?_
      exact abridges_guarded guard hnavigate.inFrame hlast

variable (settings : Settings) (extra : Nat)

theorem abridges_runWhirl :
    Abridges id (runWhirl settings t body) (runWhirl (settings.raised extra) t body') := by
  refine .reading fun guard => ?_
  exact abridges_runs (abridges_repeatWhile rfl hbody guard _ extra) _ .whirled

theorem abridges_runLaunch :
    Abridges id (runLaunch settings t body) (runLaunch (settings.raised extra) t body') := by
  refine .reading fun guard => ?_
  exact abridges_runs (abridges_repeatUntil rfl hbody guard _ extra) _ .launched

end

section

variable (settings : Settings) (extra : Nat)

mutual

/-- The run of a tree is an abridgement of its run under a higher limit. -/
theorem abridges_run :
    ∀ t, Abridges id (run settings t) (run (settings.raised extra) t)
  | .node label children => by
      have hlasting := Continues.lasting (settings.raised extra)
      cases label with
      | program =>
          rw [run, run]
          exact (abridges_runAll children).inFrame
      | token token =>
          rw [run, run]
          exact .pure id ()
      | nonterminal form =>
          cases form with
          | decStmt =>
              rw [run, run]
              exact .refl (hlasting.keeps_runDeclaration _)
          | assignStmt =>
              rw [run, run]
              exact .refl (hlasting.keeps_runAssignment _)
          | transmissionStmt =>
              rw [run, run]
              exact .refl (hlasting.keeps_runTransmission _)
          | receptionStmt =>
              rw [run, run]
              exact .refl (hlasting.keeps_runReception _)
          | arithExp =>
              rw [run, run]
              exact .refl (hlasting.keeps_runArithmetic _)
          | orbitStmt =>
              rw [run, run]
              exact abridges_runOrbit _ (abridges_runBody children)
                (abridges_runBranch .navigateStmt children)
                (abridges_runBranch .propelStmt children)
          | whirlLoop =>
              rw [run, run]
              exact abridges_runWhirl _ (abridges_runBody children) settings extra
          | launchWhirlLoop =>
              rw [run, run]
              exact abridges_runLaunch _ (abridges_runBody children) settings extra
          | _ =>
              rw [run, run]
              · exact abridges_runAll children
              all_goals simp

theorem abridges_runAll :
    ∀ trees, Abridges id (runAll settings trees) (runAll (settings.raised extra) trees)
  | [] => by
      rw [runAll, runAll]
      exact .pure id ()
  | t :: rest => by
      rw [runAll, runAll]
      exact (abridges_run t).andThen fun _ => abridges_runAll rest

theorem abridges_runBody :
    ∀ trees, Abridges id (runBody settings trees) (runBody (settings.raised extra) trees)
  | [] => by
      rw [runBody, runBody]
      exact .pure id ()
  | .node label children :: rest => by
      rw [runBody, runBody]
      split
      · exact abridges_runAll children
      · exact abridges_runBody rest

theorem abridges_runBranch
    (form : Nonterminal) :
    ∀ trees,
      Abridges id (runBranch settings form trees) (runBranch (settings.raised extra) form trees)
  | [] => by
      rw [runBranch, runBranch]
      exact .pure id ()
  | .node label children :: rest => by
      rw [runBranch, runBranch]
      split
      · exact abridges_runBody children
      · exact abridges_runBranch form rest

end

end

/--
Under a higher limit a run that was not stopped by the limit ends in the same
way and leaves the same machine behind. A run that was stopped has written and
read the beginning of what is written and read under the higher limit.
-/
theorem run_raised
    (settings : Settings)
    (limit : Nat)
    (h : settings.maxIterations ≤ limit)
    (t : Tree)
    (m : Machine) :
    (∀ m', run settings t m = .ok () m' →
      run { settings with maxIterations := limit } t m = .ok () m') ∧
      (∀ fault m', run settings t m = .error fault m' → fault.cause.isLoopLimit = false →
        run { settings with maxIterations := limit } t m = .error fault m') ∧
      ∀ fault m', run settings t m = .error fault m' → fault.cause.isLoopLimit = true →
        ∃ written more read further,
          m'.output.toList = m.output.toList ++ written ∧
            ((run { settings with maxIterations := limit } t).after m).output.toList
              = m.output.toList ++ (written ++ more) ∧
            m.input = read ++ m'.input ∧
            m.input
              = read ++ further
                  ++ ((run { settings with maxIterations := limit } t).after m).input := by
  obtain ⟨extra, rfl⟩ := Nat.exists_eq_add_of_le h
  have hrun := abridges_run settings extra t
  refine ⟨fun m' => hrun.ok, ?_, ?_⟩
  · intro fault m' hend hother
    rcases hrun.error hend with hsame | ⟨hlimit, -⟩
    · exact hsame
    · rw [hother] at hlimit
      cases hlimit
  · intro fault m' hend _
    have hbefore : m.Continues m' := by
      have hkept := (Continues.lasting settings).keeps_run t m
      rwa [after_of_error hend] at hkept
    have hbehind : m'.Continues ((run (settings.raised extra) t).after m) := by
      rcases hrun.error hend with hsame | ⟨-, hcontinues⟩
      · rw [after_of_error hsame]
        exact .refl m'
      · exact hcontinues
    obtain ⟨written, hwritten⟩ := hbefore.output
    obtain ⟨more, hmore⟩ := hbehind.output
    obtain ⟨read, hread⟩ := hbefore.input
    obtain ⟨further, hfurther⟩ := hbehind.input
    refine ⟨written, more, read, further, hwritten.symm, ?_, hread.symm, ?_⟩
    · rw [← List.append_assoc, hwritten]
      exact hmore.symm
    · rw [List.append_assoc]
      exact (hfurther.symm ▸ hread).symm

/-- `Whirl (1 == 1) { Transmission ("a"); };` -/
def chatter : Abstract.Program :=
  .items []
    (.whirl .unknown ⟨⟨.literal "1" .unknown, .equals, .literal "1" .unknown⟩, []⟩
      (.last (.statement (.transmission (.text "\"a\"")))))

/-- A loop without end is stopped after one line, and under a higher limit more may follow. -/
theorem run_raised_chatter :
    ∃ fault m' more,
      run { maxIterations := 1 } (Derivation.parse chatter.spelling).tree (fresh [])
          = .error fault m' ∧
        fault.cause.isLoopLimit = true ∧ m'.output.toList = [97, 10] ∧
        ((run { maxIterations := 2 } (Derivation.parse chatter.spelling).tree).after
            (fresh [])).output.toList
          = [97, 10] ++ more := by
  have hstopped :
      (match run { maxIterations := 1 } (Derivation.parse chatter.spelling).tree (fresh []) with
        | .ok _ _ => false
        | .error fault m' => fault.cause.isLoopLimit && m'.output.toList == [97, 10])
        = true := by
    decide +kernel
  cases hend : run { maxIterations := 1 } (Derivation.parse chatter.spelling).tree (fresh []) with
  | ok _ _ =>
      rw [hend] at hstopped
      cases hstopped
  | error fault m' =>
      rw [hend] at hstopped
      obtain ⟨hlimit, houtput⟩ := Bool.and_eq_true_iff.1 hstopped
      rw [beq_iff_eq] at houtput
      obtain ⟨written, more, -, -, hwritten, hmore, -⟩ :=
        (run_raised { maxIterations := 1 } 2 (by decide) _ (fresh [])).2.2 fault m' hend hlimit
      refine ⟨fault, m', more, rfl, hlimit, houtput, ?_⟩
      rw [hmore, ← List.append_assoc, ← hwritten, houtput]

end Machine
end CometLang
