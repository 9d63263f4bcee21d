import CometLang.Proofs.Lasting
import Mathlib.Data.List.Forall2

/-!
# The discipline of scopes

Frames are opened and closed in pairs. So however the run of a tree ends, the
frames that were open before are open again, and no others. All but the
innermost of them bind the names they bound before, and the innermost one has
lost none.

An assignment writes to the nearest frame that binds the name. So a name that
is bound in some frame keeps its value in all frames further out. This has to
be known for every open frame, and not only for the innermost one: inside a
block the innermost frame is that of the block, which is empty at first.
-/

namespace CometLang

namespace Frame

/-- The frames bind the same names. -/
def SameNames (f f' : Frame) : Prop :=
  ∀ name, f'.binds name = f.binds name

/-- The name stands for the same in both frames, or is bound in neither. -/
def SameValue
    (name : String)
    (f f' : Frame) : Prop :=
  f'.get? name = f.get? name

/--
The frames bind the same names one by one, and what is bound in one of them
keeps its value further out.
-/
inductive Steady : List Frame → List Frame → Prop
  | nil :
      Steady [] []
  | cons
      {f f' : Frame}
      {outer outer' : List Frame}
      (hnames : SameNames f f')
      (hvalues : ∀ name, f.binds name = true → List.Forall₂ (SameValue name) outer outer')
      (houter : Steady outer outer') :
      Steady (f :: outer) (f' :: outer')

/-- As with steady frames, but the innermost frame may have got new names. -/
inductive Grow : List Frame → List Frame → Prop
  | nil
      (frames : List Frame) :
      Grow [] frames
  | cons
      {f f' : Frame}
      {outer outer' : List Frame}
      (hnames : ∀ name, f.binds name = true → f'.binds name = true)
      (hvalues : ∀ name, f.binds name = true → List.Forall₂ (SameValue name) outer outer')
      (houter : Steady outer outer') :
      Grow (f :: outer) (f' :: outer')

theorem forall₂_sameValue_refl
    (name : String)
    (frames : List Frame) :
    List.Forall₂ (SameValue name) frames frames :=
  List.forall₂_same.2 fun _ _ => rfl

theorem forall₂_sameValue_trans
    {name : String}
    {as bs cs : List Frame}
    (h : List.Forall₂ (SameValue name) as bs)
    (h' : List.Forall₂ (SameValue name) bs cs) :
    List.Forall₂ (SameValue name) as cs := by
  induction h generalizing cs with
  | nil =>
      exact h'
  | cons hfirst _ ih =>
      cases h' with
      | cons hfirst' hrest' =>
          exact .cons (hfirst'.trans hfirst) (ih hrest')

namespace Steady

theorem refl
    (frames : List Frame) :
    Steady frames frames := by
  induction frames with
  | nil =>
      exact .nil
  | cons f outer ih =>
      exact .cons (fun _ => rfl) (fun name _ => forall₂_sameValue_refl name outer) ih

theorem trans
    {as bs cs : List Frame}
    (h : Steady as bs)
    (h' : Steady bs cs) :
    Steady as cs := by
  induction h generalizing cs with
  | nil =>
      exact h'
  | cons hnames hvalues _ ih =>
      cases h' with
      | cons hnames' hvalues' houter' =>
          refine .cons (fun name => (hnames' name).trans (hnames name)) ?_ (ih houter')
          intro name hbinds
          exact forall₂_sameValue_trans (hvalues name hbinds)
            (hvalues' name ((hnames name).trans hbinds))

/-- Steady frames bind the same names one by one. -/
theorem sameNames
    {as bs : List Frame}
    (h : Steady as bs) :
    List.Forall₂ SameNames as bs := by
  induction h with
  | nil =>
      exact .nil
  | cons hnames _ _ ih =>
      exact .cons hnames ih

theorem grow
    {as bs : List Frame}
    (h : Steady as bs) :
    Grow as bs := by
  cases h with
  | nil =>
      exact .nil []
  | cons hnames hvalues houter =>
      exact .cons (fun name hbinds => (hnames name).trans hbinds) hvalues houter

end Steady

theorem Grow.trans
    {as bs cs : List Frame}
    (h : Grow as bs)
    (h' : Grow bs cs) :
    Grow as cs := by
  cases h with
  | nil =>
      exact .nil cs
  | cons hnames hvalues houter =>
      cases h' with
      | cons hnames' hvalues' houter' =>
          refine .cons (fun name hbinds => hnames' name (hnames name hbinds)) ?_
            (houter.trans houter')
          intro name hbinds
          exact forall₂_sameValue_trans (hvalues name hbinds)
            (hvalues' name (hnames name hbinds))

/-- An assignment leaves the values of all other names. -/
theorem forall₂_sameValue_of_assignIn?
    {name other value : String}
    {frames frames' : List Frame}
    (hother : other ≠ name)
    (h : Scopes.assignIn? name value frames = some frames') :
    List.Forall₂ (SameValue other) frames frames' := by
  induction frames generalizing frames' with
  | nil =>
      cases h
  | cons f outer ih =>
      rw [Scopes.assignIn?] at h
      split at h
      · cases h
        exact .cons (f.get?_insert_of_ne value hother) (forall₂_sameValue_refl other outer)
      · obtain ⟨outer', houter, rfl⟩ := Option.map_eq_some_iff.1 h
        exact .cons rfl (ih houter)

/-- An assignment keeps the frames steady: it looks for the name from inside. -/
theorem Steady.of_assignIn?
    {name value : String}
    {frames frames' : List Frame}
    (h : Scopes.assignIn? name value frames = some frames') :
    Steady frames frames' := by
  induction frames generalizing frames' with
  | nil =>
      cases h
  | cons f outer ih =>
      rw [Scopes.assignIn?] at h
      split at h
      · next hbinds =>
          cases h
          refine .cons ?_ (fun other _ => forall₂_sameValue_refl other outer) (.refl outer)
          intro other
          rw [f.binds_insert]
          by_cases hother : other = name
          · simp [hother, hbinds]
          · simp [hother]
      · next hfree =>
          obtain ⟨outer', houter, rfl⟩ := Option.map_eq_some_iff.1 h
          refine .cons (fun _ => rfl) ?_ (ih houter)
          intro other hbinds
          refine forall₂_sameValue_of_assignIn? ?_ houter
          rintro rfl
          exact hfree hbinds

end Frame

/-! ## Scopes -/

/-- The open frames have grown at most inside, and closed frames were only added. -/
structure Scopes.Evolve (s s' : Scopes) : Prop where
  frames : Frame.Grow s.frames s'.frames
  history : s.history <+: s'.history

namespace Scopes.Evolve

theorem refl
    (s : Scopes) :
    s.Evolve s :=
  ⟨(Frame.Steady.refl s.frames).grow, List.prefix_refl _⟩

theorem trans
    {s s' s'' : Scopes}
    (h : s.Evolve s')
    (h' : s'.Evolve s'') :
    s.Evolve s'' :=
  ⟨h.frames.trans h'.frames, h.history.trans h'.history⟩

theorem declare
    {s s' : Scopes}
    {name value : String}
    {position : Position}
    (h : s.declare name value position = .ok s') :
    s.Evolve s' := by
  obtain ⟨frames, closed⟩ := s
  cases frames with
  | nil =>
      cases h
      exact ⟨.nil _, List.prefix_refl _⟩
  | cons f outer =>
      simp only [Scopes.declare] at h
      split at h
      · cases h
      · cases h
        refine ⟨.cons ?_ (fun other _ => Frame.forall₂_sameValue_refl other outer)
          (.refl outer), List.prefix_refl _⟩
        intro other hbinds
        simp [f.binds_insert, hbinds]

theorem assign
    {s s' : Scopes}
    {name value : String}
    {position : Position}
    (h : s.assign name value position = .ok s') :
    s.Evolve s' := by
  rw [Scopes.assign] at h
  cases hframes : assignIn? name value s.frames with
  | none =>
      rw [hframes] at h
      cases h
  | some frames =>
      rw [hframes] at h
      cases h
      exact ⟨(Frame.Steady.of_assignIn? hframes).grow, List.prefix_refl _⟩

/-- What has grown inside a new frame is steady once the frame is closed. -/
theorem steady_pop
    {s s' : Scopes}
    (h : s.push.Evolve s') :
    Frame.Steady s.frames s'.pop.frames ∧ s.history <+: s'.pop.history := by
  obtain ⟨hframes, hhistory⟩ := h
  obtain ⟨frames', closed'⟩ := s'
  cases hframes with
  | cons _ _ houter =>
      refine ⟨houter, hhistory.trans ?_⟩
      simp [Scopes.history, Scopes.pop]

theorem pop
    {s s' : Scopes}
    (h : s.push.Evolve s') :
    s.Evolve s'.pop :=
  ⟨h.steady_pop.1.grow, h.steady_pop.2⟩

end Scopes.Evolve

/-! ## Runs -/

namespace Machine

open Action

/-- The scopes of the second machine have evolved from those of the first. -/
def Evolve (m m' : Machine) : Prop :=
  m.scopes.Evolve m'.scopes

theorem scopes_leave
    (m : Machine) :
    m.leave.scopes = m.scopes.pop := by
  rw [leave, Scopes.pop]
  cases hframes : m.scopes.frames with
  | nil =>
      rfl
  | cons f outer =>
      simp [note]

namespace Evolve

variable {settings : Settings}

theorem trans
    {a b c : Machine}
    (h : Evolve a b)
    (h' : Evolve b c) :
    Evolve a c :=
  Scopes.Evolve.trans h h'

/-- Actions that leave the scopes alone. -/
theorem of_scopes_eq
    {α : Type}
    {action : Action α}
    (h : ∀ m, (action.after m).scopes = m.scopes) :
    action.Keeps Evolve := by
  intro m
  rw [Evolve, h m]
  exact .refl m.scopes

theorem keeps_declare
    (name value : String)
    (position : Position) :
    (Action.declare name value position).Keeps Evolve := by
  intro m
  rw [after, Action.declare]
  cases hdeclare : m.scopes.declare name value position with
  | ok scopes =>
      exact .declare hdeclare
  | error fault =>
      exact .refl m.scopes

theorem keeps_assign
    (name value : String)
    (position : Position) :
    (Action.assign name value position).Keeps Evolve := by
  intro m
  rw [after, Action.assign]
  cases hassign : m.scopes.assign name value position with
  | ok scopes =>
      exact .assign hassign
  | error fault =>
      exact .refl m.scopes

theorem keeps_record
    (name value : String) :
    (modify (·.record name value) : Action Unit).Keeps Evolve :=
  of_scopes_eq fun _ => rfl

theorem keeps_write
    (text : String)
    (position : Position) :
    (Action.write settings text position).Keeps Evolve := by
  refine of_scopes_eq fun m => ?_
  obtain ⟨written, hafter⟩ := after_write settings text position m
  rw [hafter]

theorem keeps_flush
    (position : Position) :
    (Action.flush settings position).Keeps Evolve :=
  of_scopes_eq fun m => by rw [after_flush]

theorem keeps_readLine
    (position : Position) :
    (Action.readLine position).Keeps Evolve :=
  of_scopes_eq fun m => by rw [after_readLine]

/-- However a run ends, the scopes have only evolved. -/
theorem lasting
    (settings : Settings) :
    Lasting settings Evolve where
  refl m := .refl m.scopes
  trans := trans
  note m event := .refl m.scopes
  frame := by
    intro m m' h
    rw [Evolve, scopes_leave]
    exact Scopes.Evolve.pop h
  declare name value position :=
    (keeps_declare name value position).bind trans fun _ => keeps_record name value
  assign name value position :=
    (keeps_assign name value position).bind trans fun _ => keeps_record name value
  write := keeps_write
  flush := keeps_flush
  readLine := keeps_readLine

end Evolve

/--
However the run of a tree ends, the frames that were open are open again. The
outer ones bind the same names as before, the innermost one at least those, and
a name bound in the innermost one has kept its value in all others. Closed
frames are only added to the history. A program does not even add a name.
-/
theorem scopes_after_run
    (settings : Settings)
    (t : Tree)
    (m : Machine) :
    (∀ inner outer, m.scopes.frames = inner :: outer →
      ∃ inner' outer',
        ((run settings t).after m).scopes.frames = inner' :: outer' ∧
          outer'.length = outer.length ∧
          (∀ name, inner.binds name = true → inner'.binds name = true) ∧
          List.Forall₂ Frame.SameNames outer outer' ∧
          ∀ name, inner.binds name = true →
            List.Forall₂ (Frame.SameValue name) outer outer') ∧
      m.scopes.history <+: ((run settings t).after m).scopes.history ∧
      (t.label = .program →
        List.Forall₂ Frame.SameNames m.scopes.frames
          ((run settings t).after m).scopes.frames) := by
  have hrun := (Evolve.lasting settings).keeps_run t m
  refine ⟨?_, hrun.history, ?_⟩
  · intro inner outer hframes
    have hgrow := hrun.frames
    rw [hframes] at hgrow
    generalize ((run settings t).after m).scopes.frames = frames' at hgrow ⊢
    cases hgrow with
    | cons hnames hvalues houter =>
        exact ⟨_, _, rfl, houter.sameNames.length_eq.symm, hnames, houter.sameNames, hvalues⟩
  · obtain ⟨label, children⟩ := t
    rintro rfl
    have hbody := (Evolve.lasting settings).keeps_runAll children m.enter
    rw [run, after_inFrame, scopes_leave]
    exact (Scopes.Evolve.steady_pop hbody).1.sameNames

/-- A program that fails leaves two open frames as they were, the outer one shadowed. -/
theorem scopes_after_failed_program :
    ∃ inner outer,
      ((run {} (.node .program [.node (.nonterminal .assignStmt) []])).after
          ⟨⟨[Table.empty.insert "x" "1", Table.empty.insert "x" "2"], []⟩, Table.empty, [], #[],
            0, []⟩).scopes.frames = inner :: outer ∧
        List.Forall₂ (Frame.SameValue "x") [Table.empty.insert "x" "2"] outer ∧
        List.Forall₂ Frame.SameNames
          [Table.empty.insert "x" "1", Table.empty.insert "x" "2"] (inner :: outer) := by
  obtain ⟨hframes, -, hprogram⟩ :=
    scopes_after_run {} (.node .program [.node (.nonterminal .assignStmt) []])
      ⟨⟨[Table.empty.insert "x" "1", Table.empty.insert "x" "2"], []⟩, Table.empty, [], #[], 0, []⟩
  obtain ⟨inner, outer, hafter, -, -, -, hvalues⟩ := hframes _ _ rfl
  refine ⟨inner, outer, hafter, hvalues "x" rfl, ?_⟩
  rw [← hafter]
  exact hprogram rfl

end Machine
end CometLang
