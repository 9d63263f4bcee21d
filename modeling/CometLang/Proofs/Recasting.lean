import CometLang.Proofs.ExpressionMeaning
import CometLang.Proofs.Renamed

/-!
# Programs with other names and positions

A program compares its names with each other and does nothing else with them,
and it keeps its positions only to blame them. So let the names of a program be
replaced, different ones by different ones, and let its positions be moved.
Then in a world whose names are replaced in the same way the new program does
what the old one does, with the names replaced in what it leaves, and with the
names replaced and the position moved in its fault.

Two cases are of interest: names are replaced and positions are kept, or names
are kept and all positions are forgotten.
-/

namespace CometLang

/--
New names for names, different ones for different ones, and new positions for
positions. What stands nowhere is not moved.
-/
structure Recast where
  rename : String → String
  move : Position → Position
  injective : Function.Injective rename
  move_unknown : move .unknown = .unknown

namespace Recast

/-- Only the names are replaced. -/
def newNames
    (f : String → String)
    (hf : Function.Injective f) : Recast :=
  ⟨f, id, hf, rfl⟩

/-- Only the positions are forgotten. -/
def unplaced : Recast :=
  ⟨id, fun _ => .unknown, Function.injective_id, rfl⟩

end Recast

/-- The cause with the name that it is about replaced. -/
def Cause.rename (f : String → String) : Cause → Cause
  | alreadyDeclared name => alreadyDeclared (f name)
  | undeclared name => undeclared (f name)
  | cause => cause

@[simp] theorem Cause.rename_id
    (cause : Cause) :
    cause.rename id = cause := by
  cases cause <;> rfl

section

variable (r : Recast)

/-- The fault with its name replaced and its position moved. -/
def Fault.recast (fault : Fault) : Fault :=
  ⟨fault.cause.rename r.rename, r.move fault.position⟩

namespace Recast

/-- The frames with their names replaced. -/
def frames (frames : List Frame) : List Frame :=
  frames.map (Frame.rename r.rename)

/-- The world with its names replaced. -/
def world (w : World) : World :=
  w.rename r.rename

/-- The result with its fault recast. -/
def result
    {α : Type}
    (result : Except Fault α) : Except Fault α :=
  result.mapError (Fault.recast r)

/-- Forgetting positions leaves the world as it is. -/
@[simp] theorem world_unplaced
    (w : World) :
    Recast.unplaced.world w = w :=
  w.rename_id

end Recast

/-- The end of a change, recast. -/
def Change.recastEnd
    {α : Type} :
    EStateM.Result Fault World α → EStateM.Result Fault World α
  | .ok a w => .ok a (r.world w)
  | .error fault w => .error (fault.recast r) (r.world w)

/-- The second change does in the recast world what the first one does, recast. -/
def Change.Recasts
    {α : Type}
    (change change' : Change α) : Prop :=
  ∀ w, change' (r.world w) = recastEnd r (change w)

end

namespace Abstract

/-! ## Recast programs -/

section

variable (r : Recast)

def Name.recast (n : Name) : Name :=
  ⟨r.rename n.text, r.move n.position⟩

def Operand.recast : Operand → Operand
  | name n => name (n.recast r)
  | literal text position => literal text (r.move position)

def Operator.recast : Operator → Operator
  | divide position => divide (r.move position)
  | operator => operator

def Operation.recast (o : Operation) : Operation :=
  ⟨o.operator.recast r, o.operand.recast r⟩

def Arithmetic.recast (a : Arithmetic) : Arithmetic :=
  ⟨a.first.recast r, a.second.recast r, a.more.map (Operation.recast r)⟩

def Value.recast : Value → Value
  | operand o => operand (o.recast r)
  | arithmetic a => arithmetic (a.recast r)

def Comparison.recast (c : Comparison) : Comparison :=
  ⟨c.left.recast r, c.comparator, c.right.recast r⟩

def Link.recast (l : Link) : Link :=
  ⟨l.connective, l.comparison.recast r⟩

def Condition.recast (c : Condition) : Condition :=
  ⟨c.first.recast r, c.links.map (Link.recast r)⟩

def Argument.recast : Argument → Argument
  | text quoted => text quoted
  | name n => name (n.recast r)

mutual

def Statement.recast : Statement → Statement
  | .declaration target value => .declaration (target.recast r) (value.recast r)
  | .assignment target value => .assignment (target.recast r) (value.recast r)
  | .transmission argument => .transmission (argument.recast r)
  | .reception target prompt => .reception (target.recast r) (prompt.recast r)
  | .orbit guard body => .orbit (guard.recast r) body.recast
  | .orbitPropel guard body otherwise =>
      .orbitPropel (guard.recast r) body.recast otherwise.recast
  | .orbitNavigatePropel guard body second alternative otherwise =>
      .orbitNavigatePropel (guard.recast r) body.recast (second.recast r) alternative.recast
        otherwise.recast
  | .whirl position guard body => .whirl (r.move position) (guard.recast r) body.recast
  | .launch position body guard => .launch (r.move position) body.recast (guard.recast r)

def Item.recast : Item → Item
  | .statement s => .statement s.recast
  | .arithmetic a => .arithmetic (a.recast r)

def Body.recast : Body → Body
  | .last item => .last item.recast
  | .more item rest => .more item.recast rest.recast

end

/-- The program with its names replaced and its positions moved. -/
def Program.recast : Program → Program
  | empty => empty
  | items before last => items (before.map (Item.recast r)) (last.recast r)
  | arithmetic a => arithmetic (a.recast r)

end

end Abstract

/-! ## Results -/

namespace Recast

variable (r : Recast)
variable {α β γ : Type}

theorem result_bind
    (result : Except Fault α)
    (next : α → Except Fault β) :
    r.result (result >>= next) = r.result result >>= fun a => r.result (next a) := by
  cases result <;> rfl

/-- Going through recast things recasts what comes of it. -/
theorem mapM_map
    {f : γ → Except Fault β}
    {g : α → Except Fault β}
    {change : α → γ}
    (h : ∀ a, f (change a) = r.result (g a))
    (as : List α) :
    (as.map change).mapM f = r.result (as.mapM g) := by
  induction as with
  | nil =>
      rfl
  | cons a as ih =>
      rw [List.map_cons, List.mapM_cons, List.mapM_cons, result_bind, h, ih]
      congr 1
      funext b
      rw [result_bind]
      rfl

end Recast

namespace Abstract

variable (r : Recast)
variable (frames : List Frame)

/-- A new name is found where the old one is. -/
theorem Name.value_recast
    (n : Name) :
    (n.recast r).value (r.frames frames) = r.result (n.value frames) := by
  have hfound : (r.frames frames).findSome? (·.get? (r.rename n.text))
      = frames.findSome? (·.get? n.text) := by
    rw [Recast.frames, List.findSome?_map]
    congr 1
    funext frame
    exact frame.get?_rename r.injective n.text
  rw [Name.value, Name.value, Name.recast, hfound]
  cases frames.findSome? (·.get? n.text) <;> rfl

theorem Operand.text_recast
    (o : Operand) :
    (o.recast r).text (r.frames frames) = r.result (o.text frames) := by
  cases o with
  | name n =>
      exact n.value_recast r frames
  | literal text position =>
      rfl

theorem Operand.number_recast
    {α : Type}
    (reader : String → Option α)
    (o : Operand) :
    (o.recast r).number reader (r.frames frames) = r.result (o.number reader frames) := by
  rw [Operand.number, Operand.number, r.result_bind, o.text_recast]
  congr 1
  funext text
  cases reader text with
  | some value =>
      rfl
  | none =>
      cases o <;> rfl

/-- The operators are kept with the values, so they are recast there too. -/
theorem Operation.values_recast
    (operations : List Operation) :
    Operation.values (r.frames frames) (operations.map (Operation.recast r))
      = (r.result (Operation.values frames operations)).map
          (List.map fun pair => (pair.1.recast r, pair.2)) := by
  induction operations with
  | nil =>
      rfl
  | cons operation operations ih =>
      rw [List.map_cons, Evaluation.values_cons, Evaluation.values_cons, ih, Operation.recast,
        operation.operand.number_recast]
      cases operation.operand.number Numeral.wholeOf? frames with
      | error fault =>
          rfl
      | ok right =>
          cases Operation.values frames operations <;> rfl

theorem Arithmetic.total_recast
    (before : Int64 → Int64)
    (term : Int64)
    (operations : List (Operator × Int64)) :
    Arithmetic.total before term (operations.map fun pair => (pair.1.recast r, pair.2))
      = r.result (Arithmetic.total before term operations) := by
  fun_induction Arithmetic.total before term operations with
  | case1 before term =>
      rfl
  | case2 before term right rest ih =>
      exact ih
  | case3 before term right rest ih =>
      exact ih
  | case4 before term right rest ih =>
      exact ih
  | case5 before term position rest =>
      rfl
  | case6 before term position right rest hright ih =>
      rw [List.map_cons, Operator.recast, Arithmetic.total, if_neg hright]
      exact ih

theorem Arithmetic.value_recast
    (a : Arithmetic) :
    (a.recast r).value (r.frames frames) = r.result (a.value frames) := by
  have hvalues := Operation.values_recast r frames (a.second :: a.more)
  rw [List.map_cons] at hvalues
  rw [Arithmetic.value, Arithmetic.value, Arithmetic.recast, r.result_bind,
    a.first.number_recast]
  dsimp only
  rw [hvalues]
  congr 1
  funext first
  rw [r.result_bind]
  cases Operation.values frames (a.second :: a.more) with
  | error fault =>
      rfl
  | ok operations =>
      exact Arithmetic.total_recast r id first operations

theorem Value.text_recast
    (value : Value) :
    (value.recast r).text (r.frames frames) = r.result (value.text frames) := by
  cases value with
  | operand o =>
      exact o.text_recast r frames
  | arithmetic a =>
      rw [Value.recast, Value.text, Value.text, r.result_bind, a.value_recast]
      rfl

theorem Comparison.truth_recast
    (c : Comparison) :
    (c.recast r).truth (r.frames frames) = r.result (c.truth frames) := by
  rw [Comparison.truth, Comparison.truth, Comparison.recast, r.result_bind,
    c.left.number_recast]
  congr 1
  funext left
  rw [r.result_bind, c.right.number_recast]
  rfl

theorem Condition.truth_recast
    (c : Condition) :
    (c.recast r).truth (r.frames frames) = r.result (c.truth frames) := by
  have htruths :
      Link.truths (r.frames frames) (c.links.map (Link.recast r))
        = r.result (Link.truths frames c.links) := by
    refine r.mapM_map (fun link => ?_) c.links
    rw [Link.recast, r.result_bind, link.comparison.truth_recast]
    rfl
  rw [Condition.truth, Condition.truth, Condition.recast, r.result_bind,
    c.first.truth_recast]
  congr 1
  funext first
  rw [r.result_bind, htruths]
  rfl

theorem Argument.contents_recast
    (a : Argument) :
    (a.recast r).contents (r.frames frames) = r.result (a.contents frames) := by
  cases a with
  | text quoted =>
      rfl
  | name n =>
      exact n.value_recast r frames

end Abstract

/-! ## Changes -/

namespace Change
namespace Recasts

open Abstract

variable {r : Recast}
variable {α β : Type}

theorem pure
    (a : α) :
    Recasts r (Pure.pure a) (Pure.pure a) := by
  intro w
  rfl

theorem throw
    (fault : Fault) :
    Recasts r (MonadExcept.throw fault : Change α) (MonadExcept.throw (fault.recast r)) := by
  intro w
  rfl

theorem bind
    {change change' : Change α}
    {next next' : α → Change β}
    (h : Recasts r change change')
    (hnext : ∀ a, Recasts r (next a) (next' a)) :
    Recasts r (change >>= next) (change' >>= next') := by
  intro w
  change EStateM.bind change' next' (r.world w) = recastEnd r (EStateM.bind change next w)
  rw [EStateM.bind, EStateM.bind, h w]
  cases change w with
  | ok a w' =>
      exact hnext a w'
  | error fault w' =>
      rfl

theorem ite
    {c : Bool}
    {first first' second second' : Change α}
    (h : Recasts r first first')
    (h' : Recasts r second second') :
    Recasts r (if c then first else second) (if c then first' else second') := by
  cases c with
  | true =>
      exact h
  | false =>
      exact h'

theorem look
    {read read' : List Frame → Except Fault α}
    (h : ∀ frames, read' (r.frames frames) = r.result (read frames)) :
    Recasts r (Change.look read) (Change.look read') := by
  intro w
  have hread : read' (r.world w).frames = r.result (read w.frames) := h w.frames
  rw [Change.look, Change.look, hread]
  cases read w.frames <;> rfl

theorem inBlock
    {body body' : Change Unit}
    (h : Recasts r body body') :
    Recasts r (Change.inBlock body) (Change.inBlock body') := by
  intro w
  have hbody : body' (opened (r.world w)) = recastEnd r (body (opened w)) := h (opened w)
  have hclosed (w' : World) : closed (r.world w') = r.world (closed w') := by
    obtain ⟨frames, closed, table, input, output⟩ := w'
    cases frames <;> rfl
  rw [Change.inBlock, Change.inBlock, hbody]
  cases body (opened w) with
  | ok a w' =>
      exact congrArg (EStateM.Result.ok ()) (hclosed w')
  | error fault w' =>
      exact congrArg (EStateM.Result.error _) (hclosed w')

theorem record
    (n : Name)
    (value : String) :
    Recasts r (Change.record n.text value) (Change.record (n.recast r).text value) := by
  intro w
  have hinsert := Table.rename_insert r.injective (Entry.rename r.rename) w.table n.text
    ⟨n.text, value, w.frames⟩
  change EStateM.Result.ok () _ = EStateM.Result.ok () (World.rename _ _)
  rw [World.rename, hinsert]
  rfl

theorem emit
    (settings : Settings)
    (text : String)
    (position : Position) :
    Recasts r (Change.emit settings text position)
      (Change.emit settings text (r.move position)) := by
  intro w
  have houtput : (r.world w).output = w.output := rfl
  have hflushes : (r.world w).flushes = w.flushes := rfl
  rw [Change.emit, Change.emit, houtput, hflushes]
  cases settings.sink.refusal? w.output w.flushes text.toUTF8.toList <;> rfl

theorem flush
    (settings : Settings)
    (position : Position) :
    Recasts r (Change.flush settings position) (Change.flush settings (r.move position)) := by
  intro w
  have houtput : (r.world w).output = w.output := rfl
  have hflushes : (r.world w).flushes = w.flushes := rfl
  rw [Change.flush, Change.flush, houtput, hflushes]
  cases settings.sink.flushError? w.output w.flushes <;> rfl

theorem receive
    (position : Position) :
    Recasts r (Change.receive position) (Change.receive (r.move position)) := by
  intro w
  have hinput : (r.world w).input = w.input := rfl
  rw [Change.receive, Change.receive, hinput]
  generalize w.input.takeWhile (· != 10) ++ (w.input.dropWhile (· != 10)).take 1 = line
  by_cases hline : line = []
  · rw [if_pos hline, if_pos hline]
    rfl
  · rw [if_neg hline, if_neg hline]
    cases String.fromUTF8? ⟨line.toArray⟩ <;> rfl

theorem declare
    (n : Name)
    (value : String) :
    Recasts r (n.declare value) ((n.recast r).declare value) := by
  rintro ⟨frames, closed, table, input, output⟩
  cases frames with
  | nil =>
      rfl
  | cons frame rest =>
      have hget : (frame.rename r.rename).get? (r.rename n.text) = frame.get? n.text :=
        frame.get?_rename r.injective n.text
      simp only [Name.declare, Recast.world, World.rename, List.map_cons, Name.recast, hget]
      by_cases hbound : (frame.get? n.text).isSome = true
      · rw [if_pos hbound, if_pos hbound]
        rfl
      · rw [if_neg hbound, if_neg hbound]
        simp [recastEnd, Recast.world, World.rename, frame.rename_insert r.injective]

theorem assign
    (n : Name)
    (value : String) :
    Recasts r (n.assign value) ((n.recast r).assign value) := by
  rintro ⟨frames, closed, table, input, output⟩
  have hindex :
      (frames.map (Frame.rename r.rename)).findIdx?
          (fun frame => (frame.get? (r.rename n.text)).isSome)
        = frames.findIdx? fun frame => (frame.get? n.text).isSome := by
    rw [List.findIdx?_map]
    congr 1
    funext frame
    exact congrArg Option.isSome (frame.get?_rename r.injective n.text)
  simp only [Name.assign, Recast.world, World.rename, Name.recast, hindex]
  cases frames.findIdx? fun frame => (frame.get? n.text).isSome with
  | none =>
      rfl
  | some index =>
      have hmodify :
          (frames.map (Frame.rename r.rename)).modify index (·.insert (r.rename n.text) value)
            = (frames.modify index (·.insert n.text value)).map (Frame.rename r.rename) := by
        apply List.ext_getElem?
        intro i
        rw [List.getElem?_modify, List.getElem?_map, List.getElem?_map, List.getElem?_modify]
        cases frames[i]? with
        | none =>
            rfl
        | some frame =>
            by_cases hi : index = i
            · simp [hi, frame.rename_insert r.injective]
            · simp [hi]
      simp [recastEnd, Recast.world, World.rename, hmodify]

theorem whileHolds
    {guard guard' : Change Bool}
    {body body' : Change Unit}
    (excess : Fault)
    (hguard : Recasts r guard guard')
    (hbody : Recasts r body body')
    (count : Nat) :
    Recasts r (Change.whileHolds excess guard body count)
      (Change.whileHolds (excess.recast r) guard' body' count) := by
  induction count with
  | zero =>
      exact hguard.bind fun holds => ite (throw excess) (pure ())
  | succ count ih =>
      exact hguard.bind fun holds => ite (hbody.bind fun _ => ih) (pure ())

theorem untilFails
    {guard guard' : Change Bool}
    {body body' : Change Unit}
    (excess : Fault)
    (hguard : Recasts r guard guard')
    (hbody : Recasts r body body')
    (count : Nat) :
    Recasts r (Change.untilFails excess guard body count)
      (Change.untilFails (excess.recast r) guard' body' count) := by
  induction count with
  | zero =>
      exact throw excess
  | succ count ih =>
      exact hbody.bind fun _ => hguard.bind fun holds => ite ih (pure ())

end Recasts
end Change

/-! ## Programs -/

namespace Abstract

open Change

variable (r : Recast)
variable (settings : Settings)

theorem recasts_receiveInto
    (target : Name)
    (prompt : Argument) :
    Recasts r (receiveInto settings target prompt)
      (receiveInto settings (target.recast r) (prompt.recast r)) := by
  refine (Recasts.look fun frames => target.value_recast r frames).bind fun _ => ?_
  refine (Recasts.look fun frames => prompt.contents_recast r frames).bind fun question => ?_
  refine (Recasts.emit settings question target.position).bind fun _ => ?_
  refine (Recasts.flush settings target.position).bind fun _ => ?_
  refine (Recasts.receive target.position).bind fun line => ?_
  exact .ite ((Recasts.assign target _).bind fun _ => .record target _) (.throw _)

/-- What is done in either case is done after looking at a recast guard. -/
theorem recasts_guarded
    {first first' second second' : Change Unit}
    (guard : Condition)
    (h : Recasts r first first')
    (h' : Recasts r second second') :
    Recasts r
      (do
        if ← look guard.truth then
          first
        else
          second)
      (do
        if ← look (guard.recast r).truth then
          first'
        else
          second') :=
  (Recasts.look fun frames => guard.truth_recast r frames).bind fun _ => .ite h h'

mutual

theorem Statement.recasts_effect :
    ∀ s : Statement, Recasts r (s.effect settings) ((s.recast r).effect settings)
  | .declaration target value => by
      rw [Statement.recast, Statement.effect, Statement.effect]
      refine (Recasts.look fun frames => value.text_recast r frames).bind fun text => ?_
      exact (Recasts.declare target text).bind fun _ => .record target text
  | .assignment target value => by
      rw [Statement.recast, Statement.effect, Statement.effect]
      refine (Recasts.look fun frames => value.text_recast r frames).bind fun text => ?_
      exact (Recasts.assign target text).bind fun _ => .record target text
  | .transmission argument => by
      rw [Statement.recast, Statement.effect, Statement.effect]
      refine (Recasts.look fun frames => argument.contents_recast r frames).bind fun text => ?_
      have hemit := Recasts.emit (r := r) settings (text ++ "\n") .unknown
      rwa [r.move_unknown] at hemit
  | .reception target prompt => by
      rw [Statement.recast, Statement.effect, Statement.effect]
      exact recasts_receiveInto r settings target prompt
  | .orbit guard body => by
      rw [Statement.recast, Statement.effect, Statement.effect]
      exact recasts_guarded r guard body.recasts_effect.inBlock (.pure ())
  | .orbitPropel guard body otherwise => by
      rw [Statement.recast, Statement.effect, Statement.effect]
      exact recasts_guarded r guard body.recasts_effect.inBlock otherwise.recasts_effect.inBlock
  | .orbitNavigatePropel guard body second alternative otherwise => by
      rw [Statement.recast, Statement.effect, Statement.effect]
      exact recasts_guarded r guard body.recasts_effect.inBlock
        (recasts_guarded r second alternative.recasts_effect.inBlock
          otherwise.recasts_effect.inBlock)
  | .whirl position guard body => by
      rw [Statement.recast, Statement.effect, Statement.effect]
      exact .whileHolds _ (.look fun frames => guard.truth_recast r frames)
        body.recasts_effect.inBlock _
  | .launch position body guard => by
      rw [Statement.recast, Statement.effect, Statement.effect]
      exact .untilFails _ (.look fun frames => guard.truth_recast r frames)
        body.recasts_effect.inBlock _

theorem Item.recasts_effect :
    ∀ item : Item, Recasts r (item.effect settings) ((item.recast r).effect settings)
  | .statement s => by
      rw [Item.recast, Item.effect, Item.effect]
      exact s.recasts_effect
  | .arithmetic a => by
      rw [Item.recast, Item.effect, Item.effect]
      exact (Recasts.look fun frames => a.value_recast r frames).bind fun _ => .pure ()

theorem Body.recasts_effect :
    ∀ body : Body, Recasts r (body.effect settings) ((body.recast r).effect settings)
  | .last item => by
      rw [Body.recast, Body.effect, Body.effect]
      exact item.recasts_effect
  | .more item rest => by
      rw [Body.recast, Body.effect, Body.effect]
      exact item.recasts_effect.bind fun _ => rest.recasts_effect

end

theorem recasts_effects
    (items : List Item) :
    Recasts r (items.forM (·.effect settings))
      ((items.map (Item.recast r)).forM (·.effect settings)) := by
  induction items with
  | nil =>
      exact .pure ()
  | cons item items ih =>
      exact (item.recasts_effect r settings).bind fun _ => ih

/-- A recast program does in a recast world what the program does, recast. -/
theorem Program.recasts_effect
    (program : Program) :
    Recasts r (program.effect settings) ((program.recast r).effect settings) := by
  cases program with
  | empty =>
      exact (Recasts.pure ()).inBlock
  | items before last =>
      exact ((recasts_effects r settings before).bind
        fun _ => last.recasts_effect r settings).inBlock
  | arithmetic a =>
      exact ((Recasts.look fun frames => a.value_recast r frames).bind fun _ => .pure ()).inBlock

/-! ## Spellings -/

/-- The piece with its name replaced and its position moved; a fixed kind has no value. -/
def Piece.recast (piece : Piece) : Piece where
  kind := piece.kind
  value? :=
    match piece.kind with
    | .identifier => piece.value?.map r.rename
    | .cometLiteral | .string => piece.value?
    | _ => none
  position? := piece.position?.map r.move

@[simp] theorem Piece.recast_fixed
    (kind : Kind) :
    (Piece.fixed kind).recast r = Piece.fixed kind := by
  cases kind <;> rfl

@[simp] theorem Name.piece_recast
    (n : Name) :
    (n.recast r).piece = n.piece.recast r := by
  rfl

@[simp] theorem Operand.piece_recast
    (o : Operand) :
    (o.recast r).piece = o.piece.recast r := by
  cases o <;> rfl

theorem Operation.pieces_recast
    (o : Operation) :
    (o.recast r).pieces = o.pieces.map (Piece.recast r) := by
  have hoperator : (o.operator.recast r).piece = o.operator.piece.recast r := by
    cases o.operator <;> rfl
  simp [Operation.pieces, Operation.recast, hoperator]

theorem flatMap_recast
    {α : Type}
    {pieces : α → List Piece}
    {change : α → α}
    (h : ∀ a, pieces (change a) = (pieces a).map (Piece.recast r))
    (as : List α) :
    (as.map change).flatMap pieces = (as.flatMap pieces).map (Piece.recast r) := by
  simp [List.flatMap_map, List.map_flatMap, h]

theorem Arithmetic.pieces_recast
    (a : Arithmetic) :
    (a.recast r).pieces = a.pieces.map (Piece.recast r) := by
  have hoperations := flatMap_recast r (Operation.pieces_recast r) (a.second :: a.more)
  simp only [List.map_cons] at hoperations
  simp only [Arithmetic.pieces, Arithmetic.recast, hoperations, Operand.piece_recast,
    List.map_cons]

theorem Value.pieces_recast
    (value : Value) :
    (value.recast r).pieces = value.pieces.map (Piece.recast r) := by
  cases value with
  | operand o =>
      simp [Value.pieces, Value.recast]
  | arithmetic a =>
      exact a.pieces_recast r

theorem Comparison.pieces_recast
    (c : Comparison) :
    (c.recast r).pieces = c.pieces.map (Piece.recast r) := by
  simp [Comparison.pieces, Comparison.recast]

theorem Link.pieces_recast
    (l : Link) :
    (l.recast r).pieces = l.pieces.map (Piece.recast r) := by
  simp [Link.pieces, Link.recast, Comparison.pieces_recast]

theorem Condition.pieces_recast
    (c : Condition) :
    (c.recast r).pieces = c.pieces.map (Piece.recast r) := by
  simp [Condition.pieces, Condition.recast, Comparison.pieces_recast,
    flatMap_recast r (Link.pieces_recast r)]

theorem Argument.pieces_recast
    (a : Argument) :
    (a.recast r).pieces = a.pieces.map (Piece.recast r) := by
  cases a <;> rfl

theorem braced_recast
    (pieces : List Piece) :
    braced (pieces.map (Piece.recast r)) = (braced pieces).map (Piece.recast r) := by
  simp [braced]

mutual

theorem Statement.pieces_recast :
    ∀ s : Statement, (s.recast r).pieces = s.pieces.map (Piece.recast r)
  | .declaration target value => by
      simp [Statement.recast, Statement.pieces, Value.pieces_recast]
  | .assignment target value => by
      simp [Statement.recast, Statement.pieces, Value.pieces_recast]
  | .transmission argument => by
      simp [Statement.recast, Statement.pieces, Argument.pieces_recast]
  | .reception target prompt => by
      simp [Statement.recast, Statement.pieces, Argument.pieces_recast]
  | .orbit guard body => by
      simp [Statement.recast, Statement.pieces, Condition.pieces_recast,
        body.pieces_recast, braced_recast]
  | .orbitPropel guard body otherwise => by
      simp [Statement.recast, Statement.pieces, Condition.pieces_recast,
        body.pieces_recast, otherwise.pieces_recast, braced_recast]
  | .orbitNavigatePropel guard body second alternative otherwise => by
      simp [Statement.recast, Statement.pieces, Condition.pieces_recast,
        body.pieces_recast, alternative.pieces_recast, otherwise.pieces_recast,
        braced_recast]
  | .whirl position guard body => by
      simp [Statement.recast, Statement.pieces, Condition.pieces_recast,
        body.pieces_recast, braced_recast]
      rfl
  | .launch position body guard => by
      simp [Statement.recast, Statement.pieces, Condition.pieces_recast,
        body.pieces_recast, braced_recast]
      rfl

theorem Item.pieces_recast :
    ∀ item : Item, (item.recast r).pieces = item.pieces.map (Piece.recast r)
  | .statement s => by
      rw [Item.recast, Item.pieces, Item.pieces, s.pieces_recast]
  | .arithmetic a => by
      rw [Item.recast, Item.pieces, Item.pieces, a.pieces_recast]

theorem Body.pieces_recast :
    ∀ body : Body, (body.recast r).pieces = body.pieces.map (Piece.recast r)
  | .last item => by
      rw [Body.recast, Body.pieces, Body.pieces, item.pieces_recast]
  | .more item rest => by
      rw [Body.recast, Body.pieces, Body.pieces, item.pieces_recast, rest.pieces_recast,
        List.map_append]

end

theorem Program.pieces_recast
    (program : Program) :
    (program.recast r).pieces = program.pieces.map (Piece.recast r) := by
  cases program with
  | empty =>
      rfl
  | items before last =>
      simp [Program.recast, Program.pieces, flatMap_recast r (Item.pieces_recast r),
        Statement.pieces_recast]
  | arithmetic a =>
      exact a.pieces_recast r

end Abstract

/-- The second token is the first one, recast; the value of a fixed kind is of no account. -/
structure Token.Recasts
    (r : Recast)
    (t t' : Token) : Prop where
  kind : t'.kind = t.kind
  identifier : t.kind = .identifier → t'.value = r.rename t.value
  literal : t.kind = .cometLiteral → t'.value = t.value
  string : t.kind = .string → t'.value = t.value
  position : t'.position = r.move t.position

namespace Abstract

variable {r : Recast}

/-- What matches a piece matches the recast piece when it is recast. -/
theorem Piece.Matches.recast
    {piece : Piece}
    {t t' : Token}
    (h : piece.Matches t)
    (ht : Token.Recasts r t t') :
    (piece.recast r).Matches t' := by
  refine ⟨ht.kind.trans h.kind, ?_, ?_⟩
  · intro v hv
    have hkind := h.kind
    rw [Piece.recast] at hv
    dsimp only at hv
    split at hv
    · next hpiece =>
        obtain ⟨u, hu, rfl⟩ := Option.map_eq_some_iff.1 hv
        rw [ht.identifier (hkind.trans hpiece), h.value u hu]
    · next hpiece =>
        rw [ht.literal (hkind.trans hpiece), h.value v hv]
    · next hpiece =>
        rw [ht.string (hkind.trans hpiece), h.value v hv]
    · cases hv
  · intro p hp
    obtain ⟨q, hq, rfl⟩ := Option.map_eq_some_iff.1 hp
    rw [ht.position, h.position q hq]

/-- Recast tokens spell the recast program. -/
theorem Program.Spells.recast
    {program : Program}
    {tokens : List Token}
    {f : Token → Token}
    (h : program.Spells tokens)
    (hf : ∀ t, Token.Recasts r t (f t)) :
    (program.recast r).Spells (tokens.map f) := by
  rw [Program.Spells, Program.pieces_recast]
  exact List.rel_map (fun _ t hmatches => hmatches.recast (hf t)) h

end Abstract
end CometLang
