import Mathlib.Data.List.TakeDrop
import CometLang.Machine.Execution
import CometLang.Proofs.Meaning

/-!
# Actions of machines as effects

A machine is a world with a log. An action simulates an effect if it does to the
world of every machine what the effect does, and ends in the same way. The log
makes no difference.

There is one rule for each way of building actions, so that a composed action
is shown to simulate an effect part by part.
-/

namespace CometLang

open Abstract Change

/-- The part of a machine that a program can see. -/
def Machine.visible (m : Machine) : World :=
  ⟨m.scopes.frames, m.scopes.closed, m.table, m.input, m.output, m.flushes⟩

namespace Action

variable {α β γ δ : Type}

/-- The end of an action as a program sees it. -/
def seen
    (forget : α → β) :
    EStateM.Result Fault Machine α → EStateM.Result Fault World β
  | .ok a m => .ok (forget a) m.visible
  | .error fault m => .error fault m.visible

/-- The action does to the world what the effect does. -/
def Simulates
    (forget : α → β)
    (action : Action α)
    (effect : Change β) : Prop :=
  ∀ m, seen forget (action m) = effect m.visible

namespace Simulates

theorem pure
    (forget : α → β)
    (a : α) :
    Simulates forget (Pure.pure a) (Pure.pure (forget a)) := by
  intro m
  rfl

theorem throw
    (forget : α → β)
    (fault : Fault) :
    Simulates forget (MonadExcept.throw fault) (MonadExcept.throw fault) := by
  intro m
  rfl

/-- What is done after an action is done after its effect. -/
theorem bind
    {forget : α → β}
    {forget' : γ → δ}
    {action : Action α}
    {effect : Change β}
    {next : α → Action γ}
    {next' : β → Change δ}
    (h : Simulates forget action effect)
    (hnext : ∀ a, Simulates forget' (next a) (next' (forget a))) :
    Simulates forget' (action >>= next) (effect >>= next') := by
  intro m
  have hm := h m
  change seen forget' (EStateM.bind action next m) = EStateM.bind effect next' m.visible
  rw [EStateM.bind, EStateM.bind, ← hm]
  cases action m with
  | ok a m' =>
      exact hnext a m'
  | error fault m' =>
      rfl

/-- A note in the log is not seen. -/
theorem note
    (event : Event) :
    Simulates id (Action.note event) (Pure.pure ()) := by
  intro m
  rfl

/-- Reading the scopes is looking at the frames. -/
theorem ofScopes
    {read : Scopes → Except Fault α}
    {read' : List Frame → Except Fault α}
    (h : ∀ scopes, read scopes = read' scopes.frames) :
    Simulates id (Action.ofScopes read) (look read') := by
  intro m
  have hm : read m.scopes = read' m.visible.frames := h m.scopes
  rw [Action.ofScopes, look, hm]
  cases read' m.visible.frames <;> rfl

/-- A frame is opened and closed around the body. -/
theorem inFrame
    {body : Action Unit}
    {effect : Change Unit}
    (h : Simulates id body effect) :
    Simulates id (Action.inFrame body) (inBlock effect) := by
  intro m
  have hleave (m' : Machine) : m'.leave.visible = Change.closed m'.visible := by
    rw [Machine.leave, Change.closed, Machine.visible]
    cases hframes : m'.scopes.frames with
    | nil =>
        simp [Machine.visible, hframes]
    | cons frame rest =>
        simp [Machine.visible, Machine.note, Scopes.pop, hframes]
  have henter : m.enter.visible = Change.opened m.visible := rfl
  have hbody := h m.enter
  rw [henter] at hbody
  rw [Action.inFrame, inBlock, ← hbody]
  cases body m.enter with
  | ok a m' =>
      exact congrArg (EStateM.Result.ok ()) (hleave m')
  | error fault m' =>
      exact congrArg (EStateM.Result.error fault) (hleave m')

/-- A name is bound in the innermost frame. -/
theorem declare
    {n : Name}
    {token : Token}
    (h : n.piece.Matches token)
    (value : String) :
    Simulates id (Action.declare token.value value token.position) (n.declare value) := by
  rintro ⟨⟨frames, closed⟩, table, input, output, flushes, log⟩
  rw [h.value _ rfl, h.position _ rfl]
  cases frames with
  | nil =>
      rfl
  | cons frame rest =>
      by_cases hbinds : (frame.get? n.text).isSome = true
      · simp [Action.declare, Scopes.declare, Name.declare, Table.binds, Machine.visible, seen,
          hbinds]
      · simp [Action.declare, Scopes.declare, Name.declare, Table.binds, Machine.visible, seen,
          hbinds]

/-- The innermost frame that binds a name is found by its index. -/
theorem assignIn?_eq
    (name value : String)
    (frames : List Frame) :
    Scopes.assignIn? name value frames
      = (frames.findIdx? fun frame => (frame.get? name).isSome).map fun index =>
          frames.modify index (·.insert name value) := by
  induction frames with
  | nil =>
      rfl
  | cons frame rest ih =>
      rw [Scopes.assignIn?, List.findIdx?_cons]
      by_cases hbinds : (frame.get? name).isSome = true
      · simp [Table.binds, hbinds]
      · simp [Table.binds, hbinds, ih, Function.comp_def]

/-- The nearest binding of a name is changed. -/
theorem assign
    {n : Name}
    {token : Token}
    (h : n.piece.Matches token)
    (value : String) :
    Simulates id (Action.assign token.value value token.position) (n.assign value) := by
  rintro ⟨⟨frames, closed⟩, table, input, output, flushes, log⟩
  rw [h.value _ rfl, h.position _ rfl]
  simp only [Action.assign, Scopes.assign, Name.assign, Machine.visible, assignIn?_eq]
  cases frames.findIdx? fun frame => (frame.get? n.text).isSome <;> rfl

/-- The latest write is recorded. -/
theorem record
    {n : Name}
    {token : Token}
    (h : n.piece.Matches token)
    (value : String) :
    Simulates id (modify (·.record token.value value)) (Change.record n.text value) := by
  intro m
  rw [h.value _ rfl]
  rfl

/-- Bytes are written as long as the sink takes them. -/
theorem write
    (settings : Settings)
    (text : String)
    (position : Position) :
    Simulates id (Action.write settings text position) (emit settings text position) := by
  intro m
  have houtput : m.visible.output = m.output := rfl
  have hflushes : m.visible.flushes = m.flushes := rfl
  rw [Action.write, emit, houtput, hflushes]
  cases settings.sink.refusal? m.output m.flushes text.toUTF8.toList <;> rfl

theorem flush
    (settings : Settings)
    (position : Position) :
    Simulates id (Action.flush settings position) (Change.flush settings position) := by
  intro m
  have houtput : m.visible.output = m.output := rfl
  have hflushes : m.visible.flushes = m.flushes := rfl
  rw [Action.flush, Change.flush, houtput, hflushes]
  cases settings.sink.flushError? m.output m.flushes <;> rfl

/-- The first line of the input ends with the first newline. -/
theorem splitLine_eq
    (input : List UInt8) :
    Machine.splitLine input
      = (input.takeWhile (· != 10) ++ (input.dropWhile (· != 10)).take 1,
          (input.dropWhile (· != 10)).drop 1) := by
  rw [Machine.splitLine, List.span_eq_takeWhile_dropWhile]
  cases input.dropWhile (· != 10) with
  | nil =>
      simp
  | cons newline rest =>
      simp

/-- A line is read from the input. -/
theorem readLine
    (position : Position) :
    Simulates id (Action.readLine position) (receive position) := by
  intro m
  have hinput : m.visible.input = m.input := rfl
  rw [Action.readLine, receive, splitLine_eq, hinput]
  dsimp only
  generalize m.input.takeWhile (· != 10) ++ (m.input.dropWhile (· != 10)).take 1 = line
  cases line with
  | nil =>
      rfl
  | cons byte line =>
      rw [if_neg (by simp), if_neg (by simp)]
      cases String.fromUTF8? ⟨(byte :: line).toArray⟩ <;> rfl

/-- A loop that tests its guard first; how many runs are left is not seen. -/
theorem repeatWhile
    {guard : Action Bool}
    {guard' : Change Bool}
    {body : Action Unit}
    {body' : Change Unit}
    (fault : Fault)
    (hguard : Simulates id guard guard')
    (hbody : Simulates id body body')
    (count : Nat) :
    Simulates (fun _ => ()) (Machine.repeatWhile fault guard body count)
      (whileHolds fault guard' (inBlock body') count) := by
  induction count with
  | zero =>
      refine hguard.bind fun holds => ?_
      cases holds with
      | true =>
          exact throw _ fault
      | false =>
          exact pure _ 0
  | succ count ih =>
      refine hguard.bind fun holds => ?_
      cases holds with
      | true =>
          exact hbody.inFrame.bind fun _ => ih
      | false =>
          exact pure _ (count + 1)

/-- A loop that tests its guard last; how many runs are left is not seen. -/
theorem repeatUntil
    {guard : Action Bool}
    {guard' : Change Bool}
    {body : Action Unit}
    {body' : Change Unit}
    (fault : Fault)
    (hguard : Simulates id guard guard')
    (hbody : Simulates id body body')
    (count : Nat) :
    Simulates (fun _ => ()) (Machine.repeatUntil fault guard body count)
      (untilFails fault guard' (inBlock body') count) := by
  induction count with
  | zero =>
      exact throw _ fault
  | succ count ih =>
      refine hbody.inFrame.bind fun _ => hguard.bind fun holds => ?_
      cases holds with
      | true =>
          exact ih
      | false =>
          exact pure _ count

/-- A note at the end is not seen. -/
theorem then_note
    {forget : α → Unit}
    {action : Action α}
    {effect : Change Unit}
    (h : Simulates forget action effect)
    (event : α → Event) :
    Simulates id (action >>= fun a => Action.note (event a)) effect := by
  intro m
  rw [← h m]
  change seen id (EStateM.bind action _ m) = _
  rw [EStateM.bind]
  cases action m <;> rfl

end Simulates
end Action
end CometLang
