import CometLang.Proofs.Raising

/-!
# Output that fills up

The output may take only so many bytes. A run that writes no more than these does
not notice: it ends as it would, in the same machine. Any other run is stopped by
the first write that does not fit, and the output then holds the first bytes of
what would have been written.

The run is followed side by side with the run into an output without bounds. As long
as that one stays within the limit the two are the same; and as no run takes back
what it has written, nothing that comes later can hide that the limit was passed.
-/

namespace CometLang

/-! ## Bytes -/

/-- Listing the bytes from an index on adds them to those listed before. -/
theorem toList_loop
    (bytes : ByteArray)
    (index : Nat)
    (listed : List UInt8) :
    ByteArray.toList.loop bytes index listed = listed.reverse ++ bytes.data.toList.drop index := by
  fun_induction ByteArray.toList.loop bytes index listed with
  | case1 index listed h ih =>
      have hindex : index < bytes.data.toList.length := by simpa using h
      rw [ih, List.drop_eq_getElem_cons hindex, List.reverse_cons, List.append_assoc]
      simp [ByteArray.get!, h]
  | case2 index listed h =>
      rw [List.drop_of_length_le (by simpa using h), List.append_nil]

/-- The bytes of two texts one after the other. -/
theorem toUTF8_append
    (first second : String) :
    (first ++ second).toUTF8.toList = first.toUTF8.toList ++ second.toUTF8.toList := by
  have hlist (bytes : ByteArray) : bytes.toList = bytes.data.toList := toList_loop bytes 0 []
  simp [hlist]

theorem size_appendList
    (output : Array UInt8)
    (bytes : List UInt8) :
    (output ++ bytes).size = output.size + bytes.length := by
  rw [← Array.length_toList, Array.toList_appendList, List.length_append, Array.length_toList]

theorem appendList_append
    (output : Array UInt8)
    (first second : List UInt8) :
    output ++ (first ++ second) = output ++ first ++ second := by
  apply Array.toList_inj.1
  simp only [Array.toList_appendList, List.append_assoc]

namespace Settings

/-- The settings with an output that takes everything. -/
def unbounded (settings : Settings) : Settings :=
  { settings with sink := settings.sink.unbounded }

/-- The settings with an output that takes so many bytes in all. -/
def bounded
    (settings : Settings)
    (limit : Nat) : Settings :=
  { settings with sink := settings.sink.bounded limit }

end Settings

/-- Nothing that was written is taken back. -/
def Machine.Grows (m m' : Machine) : Prop :=
  m.output.toList <+: m'.output.toList

namespace Action

open Machine

variable {α β : Type}

/-! ## Writing -/

theorem write_unbounded
    (settings : Settings)
    (text : String)
    (position : Position)
    (m : Machine) :
    write settings.unbounded text position m
      = .ok () { m with output := m.output ++ text.toUTF8.toList } :=
  write_of_takesAll text position m fun _ _ _ => rfl

/-- Of what is written into a bounded output, so much is kept as there is room for. -/
theorem write_bounded
    (settings : Settings)
    (limit : Nat)
    (text : String)
    (position : Position)
    (m : Machine) :
    write (settings.bounded limit) text position m
      = if text.toUTF8.toList.length ≤ limit - m.output.size then
          .ok () { m with output := m.output ++ text.toUTF8.toList }
        else
          .error ⟨.io "failed to write whole buffer", position⟩
            { m with output := m.output ++ text.toUTF8.toList.take (limit - m.output.size) } := by
  rw [write, Settings.bounded, Sink.bounded]
  by_cases hfits : text.toUTF8.toList.length ≤ limit - m.output.size
  · simp only [dif_neg (Nat.not_lt.2 hfits), if_pos hfits]
  · simp only [dif_pos (Nat.not_le.1 hfits), if_neg hfits]

/-- A text may be written in two parts, whether or not both of them fit. -/
theorem write_bounded_append
    (settings : Settings)
    (limit : Nat)
    (first second : String)
    (position : Position) :
    write (settings.bounded limit) (first ++ second) position
      = (do
          write (settings.bounded limit) first position
          write (settings.bounded limit) second position) := by
  funext m
  have hfirst := write_bounded settings limit first position m
  rw [write_bounded, toUTF8_append, List.length_append]
  by_cases hfits : first.toUTF8.toList.length ≤ limit - m.output.size
  · -- The second part finds the room that the first one has left.
    rw [if_pos hfits] at hfirst
    rw [bind_of_ok hfirst, write_bounded, size_appendList, Nat.sub_add_eq, List.take_append,
      List.take_of_length_le hfits]
    by_cases hrest :
        second.toUTF8.toList.length ≤ limit - m.output.size - first.toUTF8.toList.length
    · rw [if_pos hrest, if_pos (by omega), appendList_append]
    · rw [if_neg hrest, if_neg (by omega), appendList_append]
  · rw [if_neg hfits] at hfirst
    rw [bind_of_error hfirst, if_neg (by omega), List.take_append_of_le_length (by omega)]

/-! ## Two runs side by side -/

/--
The action does what the whole one does, as long as the output of that one stays
within the limit. Where it does not, the action is stopped by a write, and its
output is the beginning of the other's, up to the limit.
-/
structure Curtails
    (limit : Nat)
    (action whole : Action α) : Prop where
  grows : whole.Keeps Grows
  same :
    ∀ {m}, (whole.after m).output.size ≤ limit → action m = whole m
  stops :
    ∀ {m}, m.output.size ≤ limit → limit < (whole.after m).output.size →
      ∃ fault m',
        action m = .error fault m' ∧
          fault.cause = .io "failed to write whole buffer" ∧
          m'.output.toList = (whole.after m).output.toList.take limit

/-- The action leaves the output as it is. -/
def Silent (action : Action α) : Prop :=
  action.Keeps fun m m' => m'.output = m.output

/-- Being silent lasts through everything that is only noted. -/
theorem noting_silent :
    Noting fun m m' : Machine => m'.output = m.output :=
  ⟨fun _ => rfl, fun h h' => h'.trans h, fun _ _ => rfl⟩

theorem silent_declare
    (name value : String)
    (position : Position) :
    (declare name value position).Silent := by
  intro m
  rcases declare_cases name value position m with ⟨fault, hend⟩ | ⟨scopes, log, -, hend⟩
  · rw [after_of_error hend]
  · rw [after_of_ok hend]

theorem silent_assign
    (name value : String)
    (position : Position) :
    (assign name value position).Silent := by
  intro m
  rcases assign_cases name value position m with ⟨fault, hend⟩ | ⟨scopes, -, hend⟩
  · rw [after_of_error hend]
  · rw [after_of_ok hend]

theorem silent_flush
    (settings : Settings)
    (position : Position) :
    (flush settings position).Silent := by
  intro m
  rw [after_flush]

theorem silent_readLine
    (position : Position) :
    (readLine position).Silent := by
  intro m
  rw [after_readLine]

theorem silent_record
    (name value : String) :
    (modify (·.record name value) : Action Unit).Silent :=
  fun _ => rfl

namespace Curtails

variable {limit : Nat}

/-- What writes nothing does not depend on the limit. -/
theorem of_silent
    {action : Action α}
    (h : action.Silent) :
    Curtails limit action action where
  grows m := ⟨[], by rw [List.append_nil, h m]⟩
  same _ := rfl
  stops {m} hroom hpast := by
    rw [h m] at hpast
    omega

theorem write
    (settings : Settings)
    (text : String)
    (position : Position) :
    Curtails limit (Action.write (settings.bounded limit) text position)
      (Action.write settings.unbounded text position) := by
  have hafter (m : Machine) :
      ((Action.write settings.unbounded text position).after m).output
        = m.output ++ text.toUTF8.toList :=
    congrArg Machine.output (after_of_ok (write_unbounded settings text position m))
  refine ⟨fun m => ?_, fun {m} hfits => ?_, fun {m} hroom hpast => ?_⟩
  · rw [Grows, hafter, Array.toList_appendList]
    exact List.prefix_append _ _
  · rw [hafter, size_appendList] at hfits
    rw [write_bounded, write_unbounded, if_pos (by omega)]
  · rw [hafter, size_appendList] at hpast
    refine ⟨_, _, (write_bounded _ _ _ _ _).trans (if_neg (by omega)), rfl, ?_⟩
    · have houtput : m.output.toList.length ≤ limit := by
        rwa [Array.length_toList]
      rw [hafter, Array.toList_appendList, Array.toList_appendList, List.take_append,
        List.take_of_length_le houtput, Array.length_toList]

/-- One after the other; what comes later takes nothing back. -/
theorem bind
    {action whole : Action α}
    {next next' : α → Action β}
    (h : Curtails limit action whole)
    (hnext : ∀ a, Curtails limit (next a) (next' a)) :
    Curtails limit (action >>= next) (whole >>= next') where
  grows := h.grows.bind (fun h h' => h.trans h') fun a => (hnext a).grows
  same {m} hfits := by
    rw [after_bind] at hfits
    cases hwhole : whole m with
    | ok a between =>
        rw [hwhole] at hfits
        have hbetween : between.output.size ≤ limit :=
          Nat.le_trans ((hnext a).grows between).length_le hfits
        have hsame := h.same (m := m) (by rwa [after_of_ok hwhole])
        rw [bind_of_ok (hsame.trans hwhole), bind_of_ok hwhole]
        exact (hnext a).same hfits
    | error fault between =>
        rw [hwhole] at hfits
        have hsame := h.same (m := m) (by rwa [after_of_error hwhole])
        rw [bind_of_error (hsame.trans hwhole), bind_of_error hwhole]
  stops {m} hroom hpast := by
    rw [after_bind] at hpast ⊢
    cases hwhole : whole m with
    | ok a between =>
        rw [hwhole] at hpast
        by_cases hbetween : between.output.size ≤ limit
        · have hsame := h.same (m := m) (by rwa [after_of_ok hwhole])
          rw [bind_of_ok (hsame.trans hwhole)]
          exact (hnext a).stops hbetween hpast
        · -- The limit is passed here already, and what comes behind only adds to it.
          rw [Nat.not_le] at hbetween
          obtain ⟨fault, m', hend, hcause, houtput⟩ :=
            h.stops hroom (by rwa [after_of_ok hwhole])
          refine ⟨fault, m', bind_of_error hend, hcause, ?_⟩
          obtain ⟨more, hmore⟩ := (hnext a).grows between
          rw [houtput, after_of_ok hwhole, ← hmore,
            List.take_append_of_le_length (Nat.le_of_lt hbetween)]
    | error fault between =>
        rw [hwhole] at hpast
        obtain ⟨fault', m', hend, hcause, houtput⟩ :=
          h.stops hroom (by rwa [after_of_error hwhole])
        rw [after_of_error hwhole] at houtput
        exact ⟨fault', m', bind_of_error hend, hcause, houtput⟩

/-- What is read from the scopes is the same on both sides. -/
theorem reading
    {read : Scopes → Except Fault α}
    {next next' : α → Action β}
    (hnext : ∀ a, Curtails limit (next a) (next' a)) :
    Curtails limit (ofScopes read >>= next) (ofScopes read >>= next') :=
  (of_silent (noting_silent.keeps_ofScopes read)).bind hnext

theorem inFrame
    {body body' : Action Unit}
    (h : Curtails limit body body') :
    Curtails limit (Action.inFrame body) (Action.inFrame body') where
  grows m := by
    rw [Grows, after_inFrame, output_leave]
    exact h.grows m.enter
  same {m} hfits := by
    rw [after_inFrame, output_leave] at hfits
    rw [Action.inFrame, Action.inFrame, h.same hfits]
  stops {m} hroom hpast := by
    rw [after_inFrame, output_leave] at hpast ⊢
    obtain ⟨fault, m', hend, hcause, houtput⟩ := h.stops (m := m.enter) hroom hpast
    refine ⟨fault, m'.leave, ?_, hcause, ?_⟩
    · rw [Action.inFrame, hend]
    · rw [output_leave]
      exact houtput

end Curtails
end Action

namespace Machine

open Action

variable {limit : Nat}

/-! ## Simple statements -/

theorem silent_runDeclaration
    (t : Tree) :
    (runDeclaration t).Silent := by
  have hnoting := noting_silent
  refine hnoting.keeps_bind (hnoting.keeps_ofExcept _) fun (target, right) => ?_
  refine hnoting.keeps_bind (hnoting.keeps_valueText right) fun value => ?_
  refine hnoting.keeps_bind (silent_declare _ _ _) fun _ => ?_
  exact hnoting.keeps_bind (silent_record _ _) fun _ => hnoting.keeps_note _

theorem silent_runAssignment
    (t : Tree) :
    (runAssignment t).Silent := by
  have hnoting := noting_silent
  refine hnoting.keeps_bind (hnoting.keeps_ofExcept _) fun (target, right) => ?_
  refine hnoting.keeps_bind (hnoting.keeps_valueText right) fun value => ?_
  refine hnoting.keeps_bind (silent_assign _ _ _) fun _ => ?_
  exact hnoting.keeps_bind (silent_record _ _) fun _ => hnoting.keeps_note _

section

variable (settings : Settings) (t : Tree)

theorem curtails_runTransmission :
    Curtails limit (runTransmission (settings.bounded limit) t)
      (runTransmission settings.unbounded t) := by
  refine .reading fun io => ?_
  refine (Curtails.of_silent (noting_silent.keeps_argumentText? io)).bind fun text => ?_
  cases text with
  | some text =>
      exact .write settings _ _
  | none =>
      exact .of_silent (noting_silent.keeps_throw _)

/-- Only the question is written; what is done with the answer is the same on both sides. -/
theorem curtails_runReception :
    Curtails limit (runReception (settings.bounded limit) t)
      (runReception settings.unbounded t) := by
  have hnoting := noting_silent
  refine .reading fun child => ?_
  refine .reading fun target => ?_
  refine .reading fun _ => ?_
  refine .reading fun io => ?_
  refine (Curtails.of_silent (hnoting.keeps_argumentText? io)).bind fun argument => ?_
  refine (Curtails.write settings _ _).bind fun _ => ?_
  refine Curtails.of_silent ?_
  refine hnoting.keeps_bind (silent_flush settings _) fun _ => ?_
  refine hnoting.keeps_bind (silent_readLine _) fun line => ?_
  dsimp only
  split
  · refine hnoting.keeps_bind (silent_assign _ _ _) fun _ => ?_
    exact hnoting.keeps_bind (silent_record _ _) fun _ => hnoting.keeps_note _
  · exact hnoting.keeps_throw _

end

/-! ## Branches and loops -/

/-- A guard is looked at, and one of two things is done. -/
theorem curtails_guarded
    {α : Type}
    {first second first' second' : Action α}
    (guard : Tree)
    (hfirst : Curtails limit first first')
    (hsecond : Curtails limit second second') :
    Curtails limit
      (do
        if ← holds guard then
          first
        else
          second)
      (do
        if ← holds guard then
          first'
        else
          second') := by
  refine .reading fun truth => ?_
  cases truth with
  | true =>
      exact hfirst
  | false =>
      exact hsecond

section

variable {body body' : Action Unit}
variable (hbody : Curtails limit body body')

include hbody

/-- By induction on how often the body may still run. -/
theorem curtails_repeatWhile
    (fault : Fault)
    (guard : Tree)
    (count : Nat) :
    Curtails limit (repeatWhile fault (holds guard) body count)
      (repeatWhile fault (holds guard) body' count) := by
  induction count with
  | zero =>
      exact curtails_guarded guard (.of_silent (noting_silent.keeps_throw fault))
        (.of_silent (noting_silent.keeps_pure 0))
  | succ count ih =>
      exact curtails_guarded guard (hbody.inFrame.bind fun _ => ih)
        (.of_silent (noting_silent.keeps_pure (count + 1)))

/-- By induction on how often the body may still run. -/
theorem curtails_repeatUntil
    (fault : Fault)
    (guard : Tree)
    (count : Nat) :
    Curtails limit (repeatUntil fault (holds guard) body count)
      (repeatUntil fault (holds guard) body' count) := by
  induction count with
  | zero =>
      exact .of_silent (noting_silent.keeps_throw fault)
  | succ count ih =>
      exact hbody.inFrame.bind fun _ =>
        curtails_guarded guard ih (.of_silent (noting_silent.keeps_pure count))

variable (t : Tree)

theorem curtails_runPropel :
    Curtails limit (runPropel t body) (runPropel t body') := by
  rw [runPropel, runPropel]
  cases t.child? .propelStmt with
  | none =>
      exact .of_silent (noting_silent.keeps_pure ())
  | some branch =>
      exact .reading fun _ => hbody.inFrame

theorem curtails_runOrbit
    {navigateBody navigateBody' propelBody propelBody' : Action Unit}
    (hnavigate : Curtails limit navigateBody navigateBody')
    (hpropel : Curtails limit propelBody propelBody') :
    Curtails limit (runOrbit t body navigateBody propelBody)
      (runOrbit t body' navigateBody' propelBody') := by
  have hlast := curtails_runPropel hpropel t
  refine .reading fun guard => ?_
  refine curtails_guarded guard hbody.inFrame ?_
  cases t.child? .navigateStmt with
  | none =>
      exact hlast
  | some branch =>
      refine .reading fun guard => ?_
      exact curtails_guarded guard hnavigate.inFrame hlast

variable (settings : Settings)

theorem curtails_runWhirl :
    Curtails limit (runWhirl (settings.bounded limit) t body)
      (runWhirl settings.unbounded t body') := by
  refine .reading fun guard => ?_
  exact (curtails_repeatWhile hbody _ guard _).bind fun _ =>
    .of_silent (noting_silent.keeps_note _)

theorem curtails_runLaunch :
    Curtails limit (runLaunch (settings.bounded limit) t body)
      (runLaunch settings.unbounded t body') := by
  refine .reading fun guard => ?_
  exact (curtails_repeatUntil hbody _ guard _).bind fun _ =>
    .of_silent (noting_silent.keeps_note _)

end

/-! ## Trees -/

section

variable (settings : Settings) (limit : Nat)

mutual

/-- The run of a tree is curtailed where the output is full, and nowhere else. -/
theorem curtails_run :
    ∀ t, Curtails limit (run (settings.bounded limit) t) (run settings.unbounded t)
  | .node label children => by
      cases label with
      | program =>
          rw [run, run]
          exact (curtails_runAll children).inFrame
      | token token =>
          rw [run, run]
          exact .of_silent (noting_silent.keeps_pure ())
      | nonterminal form =>
          cases form with
          | decStmt =>
              rw [run, run]
              exact .of_silent (silent_runDeclaration _)
          | assignStmt =>
              rw [run, run]
              exact .of_silent (silent_runAssignment _)
          | transmissionStmt =>
              rw [run, run]
              exact curtails_runTransmission settings _
          | receptionStmt =>
              rw [run, run]
              exact curtails_runReception settings _
          | arithExp =>
              rw [run, run]
              exact .of_silent (noting_silent.keeps_runArithmetic _)
          | orbitStmt =>
              rw [run, run]
              exact curtails_runOrbit (curtails_runBody children) _
                (curtails_runBranch .navigateStmt children)
                (curtails_runBranch .propelStmt children)
          | whirlLoop =>
              rw [run, run]
              exact curtails_runWhirl (curtails_runBody children) _ settings
          | launchWhirlLoop =>
              rw [run, run]
              exact curtails_runLaunch (curtails_runBody children) _ settings
          | _ =>
              rw [run, run]
              · exact curtails_runAll children
              all_goals simp

theorem curtails_runAll :
    ∀ trees,
      Curtails limit (runAll (settings.bounded limit) trees) (runAll settings.unbounded trees)
  | [] => by
      rw [runAll, runAll]
      exact .of_silent (noting_silent.keeps_pure ())
  | t :: rest => by
      rw [runAll, runAll]
      exact (curtails_run t).bind fun _ => curtails_runAll rest

theorem curtails_runBody :
    ∀ trees,
      Curtails limit (runBody (settings.bounded limit) trees) (runBody settings.unbounded trees)
  | [] => by
      rw [runBody, runBody]
      exact .of_silent (noting_silent.keeps_pure ())
  | .node label children :: rest => by
      rw [runBody, runBody]
      split
      · exact curtails_runAll children
      · exact curtails_runBody rest

theorem curtails_runBranch
    (form : Nonterminal) :
    ∀ trees,
      Curtails limit (runBranch (settings.bounded limit) form trees)
        (runBranch settings.unbounded form trees)
  | [] => by
      rw [runBranch, runBranch]
      exact .of_silent (noting_silent.keeps_pure ())
  | .node label children :: rest => by
      rw [runBranch, runBranch]
      split
      · exact curtails_runBody children
      · exact curtails_runBranch form rest

end

end

/--
Into an output that takes so many bytes in all, a run that would write no more than
these ends as it would without the limit, and leaves the same machine behind. Every
other run fails because the output is full, and the output holds so many bytes of
what would have been written, from the first on. It makes no difference in how many
pieces a text is written.
-/
theorem run_curtailed
    (settings : Settings)
    (limit : Nat)
    (t : Tree)
    (m : Machine)
    (h : m.output.size ≤ limit) :
    (((run settings.unbounded t).after m).output.size ≤ limit →
      run (settings.bounded limit) t m = run settings.unbounded t m) ∧
      (limit < ((run settings.unbounded t).after m).output.size →
        ∃ fault m',
          run (settings.bounded limit) t m = .error fault m' ∧
            fault.cause = .io "failed to write whole buffer" ∧
            m'.output.toList
              = ((run settings.unbounded t).after m).output.toList.take limit) ∧
      ∀ first second position,
        Action.write (settings.bounded limit) (first ++ second) position
          = (do
              Action.write (settings.bounded limit) first position
              Action.write (settings.bounded limit) second position) := by
  have hrun := curtails_run settings limit t
  exact ⟨hrun.same, hrun.stops h, Action.write_bounded_append settings limit⟩

/-- A loop of two lines is stopped in its second line, between the text and the newline. -/
theorem run_curtailed_chatter :
    (fresh []).output.size ≤ 3 ∧
      ∃ fault m',
        run (Settings.bounded { maxIterations := 2 } 3)
            (Derivation.parse chatter.spelling).tree (fresh []) = .error fault m' ∧
          fault.cause = .io "failed to write whole buffer" ∧
          m'.output.toList = [97, 10, 97] := by
  have hwhole :
      ((run (Settings.unbounded { maxIterations := 2 })
        (Derivation.parse chatter.spelling).tree).after
        (fresh [])).output.toList = [97, 10, 97, 10] := by
    decide +kernel
  have hpast :
      3 < ((run (Settings.unbounded { maxIterations := 2 })
        (Derivation.parse chatter.spelling).tree).after
        (fresh [])).output.size := by
    rw [← Array.length_toList, hwhole]
    decide
  obtain ⟨fault, m', hend, hcause, houtput⟩ :=
    (run_curtailed { maxIterations := 2 } 3 (Derivation.parse chatter.spelling).tree (fresh [])
      (by decide)).2.1 hpast
  refine ⟨by decide, fault, m', hend, hcause, ?_⟩
  rw [houtput, hwhole]
  rfl

end Machine
end CometLang
