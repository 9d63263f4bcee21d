import CometLang.Proofs.Discipline

/-!
# The table of the latest writes

The table says again what the frames say: each name that was ever bound, with
its latest value and the open frames as they were then. Every write is made in
the frames first and put into the table next, and there is nothing in between
that can fail. So the table agrees with the frames before and after every
statement, however a run ends, and through any number of runs.

What a write does to the frames is said once: afterwards the name is found with
its new value, and no other name has come or gone. Declarations and assignments
do this in different frames, and the table does not see the difference.
-/

namespace CometLang

/-! ## Names in frames, open and closed -/

namespace Scopes

/-- The name is bound in an open frame, or in one that was closed. -/
def Knows
    (s : Scopes)
    (name : String) : Prop :=
  (∃ frame ∈ s.frames, frame.binds name = true) ∨
    ∃ frame ∈ s.history, frame.binds name = true

/-- A new frame has no names. -/
theorem knows_push
    (s : Scopes)
    (name : String) :
    s.push.Knows name ↔ s.Knows name := by
  simp [Knows, push, history]

/-- The names of a frame that is closed are not forgotten. -/
theorem knows_pop
    (s : Scopes)
    (name : String) :
    s.pop.Knows name ↔ s.Knows name := by
  obtain ⟨frames, closed⟩ := s
  cases frames with
  | nil =>
      exact Iff.rfl
  | cons frame rest =>
      simp only [Knows, pop, history, List.mem_reverse, List.exists_mem_cons_iff]
      rw [or_left_comm, or_assoc]

/-- The name is found with the value, and otherwise the same names are known. -/
structure Writes
    (name value : String)
    (s s' : Scopes) : Prop where
  found : s'.lookup? name = some value
  names : ∀ other, s'.Knows other ↔ other = name ∨ s.Knows other

/-- In front of other frames, the innermost one decides. -/
theorem lookupIn_insert
    (name value : String)
    (frame : Frame)
    (rest : List Frame) :
    lookupIn name (frame.insert name value :: rest) = some value := by
  simp [lookupIn]

/-- A declaration writes in the innermost frame. -/
theorem Writes.declare
    {s s' : Scopes}
    {name value : String}
    {position : Position}
    (h : s.declare name value position = .ok s') :
    Writes name value s s' := by
  obtain ⟨frames, closed⟩ := s
  cases frames with
  | nil =>
      cases h
      refine ⟨lookupIn_insert name value Table.empty [], fun other => ?_⟩
      simp [Knows, history, Table.binds_insert]
  | cons frame rest =>
      simp only [Scopes.declare] at h
      split at h
      · cases h
      · cases h
        refine ⟨lookupIn_insert name value frame rest, fun other => ?_⟩
        simp only [Knows, history, List.exists_mem_cons_iff, Table.binds_insert, Bool.or_eq_true,
          decide_eq_true_eq, or_assoc]

/-- The name is found where it was assigned to: the frames in front do not bind it. -/
theorem lookupIn_of_assignIn?
    {name value : String}
    {frames frames' : List Frame}
    (h : assignIn? name value frames = some frames') :
    lookupIn name frames' = some value := by
  induction frames generalizing frames' with
  | nil =>
      cases h
  | cons frame rest ih =>
      rw [assignIn?] at h
      split at h
      · cases h
        exact lookupIn_insert name value frame rest
      · next hfree =>
          obtain ⟨rest', hrest, rfl⟩ := Option.map_eq_some_iff.1 h
          have hnone : frame.get? name = none := by
            simpa [Table.binds] using hfree
          have hfound := ih hrest
          simpa [lookupIn, hnone] using hfound

/-- Only a name that is bound is assigned to. -/
theorem exists_binds_of_assignIn?
    {name value : String}
    {frames frames' : List Frame}
    (h : assignIn? name value frames = some frames') :
    ∃ frame ∈ frames, frame.binds name = true := by
  induction frames generalizing frames' with
  | nil =>
      cases h
  | cons frame rest ih =>
      rw [assignIn?] at h
      split at h
      · next hbinds =>
          exact ⟨frame, List.mem_cons_self, hbinds⟩
      · obtain ⟨rest', hrest, rfl⟩ := Option.map_eq_some_iff.1 h
        obtain ⟨outer, hmem, hbinds⟩ := ih hrest
        exact ⟨outer, List.mem_cons_of_mem frame hmem, hbinds⟩

end Scopes

/-- Frames that bind the same names one by one bind the same names in all. -/
theorem Frame.exists_binds_iff
    {frames frames' : List Frame}
    (h : List.Forall₂ SameNames frames frames')
    (name : String) :
    (∃ frame ∈ frames', frame.binds name = true) ↔
      ∃ frame ∈ frames, frame.binds name = true := by
  induction h with
  | nil =>
      exact Iff.rfl
  | cons hnames _ ih =>
      rw [List.exists_mem_cons_iff, List.exists_mem_cons_iff, hnames name, ih]

/-- An assignment writes in the nearest frame that binds the name. -/
theorem Scopes.Writes.assign
    {s s' : Scopes}
    {name value : String}
    {position : Position}
    (h : s.assign name value position = .ok s') :
    Writes name value s s' := by
  rw [Scopes.assign] at h
  cases hframes : assignIn? name value s.frames with
  | none =>
      rw [hframes] at h
      cases h
  | some frames =>
      rw [hframes] at h
      cases h
      have hsame := Frame.exists_binds_iff (Frame.Steady.of_assignIn? hframes).sameNames
      refine ⟨lookupIn_of_assignIn? hframes, fun other => ?_⟩
      have hknows : Knows { s with frames := frames } other ↔ s.Knows other :=
        or_congr (hsame other) Iff.rfl
      rw [hknows]
      refine ⟨.inr, ?_⟩
      rintro (rfl | hother)
      · exact .inl (exists_binds_of_assignIn? hframes)
      · exact hother

/-! ## Machines -/

namespace Machine

open Action

/--
The table agrees with the frames: an entry stands under its own name, the name
has the value of the entry in the frames kept with it, and the entries are for
the names that are bound in open frames or were bound in closed ones.
-/
structure Consistent (m : Machine) : Prop where
  identifier : ∀ {name entry}, m.table.get? name = some entry → entry.identifier = name
  value :
    ∀ {name entry}, m.table.get? name = some entry →
      Scopes.lookupIn entry.identifier entry.frames = some entry.value
  names : ∀ name, m.table.binds name = true ↔ m.scopes.Knows name

theorem consistent_fresh
    (input : List UInt8) :
    (fresh input).Consistent where
  identifier h := by
    cases h
  value h := by
    cases h
  names name := by
    simp [fresh, Scopes.Knows, Scopes.empty, Scopes.history]

namespace Consistent

variable {m m' : Machine}

/-- The table is compared with the names in frames, and with nothing else. -/
theorem of_knows
    (h : m.Consistent)
    (htable : m'.table = m.table)
    (hknows : ∀ name, m'.scopes.Knows name ↔ m.scopes.Knows name) :
    m'.Consistent where
  identifier hget := h.identifier (htable ▸ hget)
  value hget := h.value (htable ▸ hget)
  names name := by
    rw [htable, hknows]
    exact h.names name

/-- What is written is put into the table. -/
theorem record
    {name value : String}
    (h : m.Consistent)
    (htable : m'.table = m.table)
    (hwrites : Scopes.Writes name value m.scopes m'.scopes) :
    (m'.record name value).Consistent := by
  have hinsert :
      (m'.record name value).table
        = m.table.insert name ⟨name, value, m'.scopes.frames⟩ := by
    rw [Machine.record, htable]
  refine ⟨?_, ?_, ?_⟩
  · intro other entry hget
    rw [hinsert] at hget
    rcases Table.get?_insert_eq_some hget with ⟨rfl, rfl⟩ | hbefore
    · rfl
    · exact h.identifier hbefore
  · intro other entry hget
    rw [hinsert] at hget
    rcases Table.get?_insert_eq_some hget with ⟨-, rfl⟩ | hbefore
    · exact hwrites.found
    · exact h.value hbefore
  · intro other
    have hnames : (m'.record name value).scopes.Knows other ↔ other = name ∨ m.scopes.Knows other :=
      hwrites.names other
    rw [hnames, ← h.names, hinsert, Table.binds_insert]
    simp

theorem enter
    (h : m.Consistent) :
    m.enter.Consistent :=
  h.of_knows rfl fun name => m.scopes.knows_push name

theorem leave
    (h : m.Consistent) :
    m.leave.Consistent := by
  refine h.of_knows ?_ fun name => ?_
  · rw [Machine.leave]
    cases m.scopes.frames <;> rfl
  · rw [scopes_leave]
    exact m.scopes.knows_pop name

end Consistent

/-- A table that agreed with the frames agrees with them again. -/
def StaysConsistent (m m' : Machine) : Prop :=
  m.Consistent → m'.Consistent

namespace StaysConsistent

/-- Actions that change neither the scopes nor the table. -/
theorem of_eq
    {α : Type}
    {action : Action α}
    (h : ∀ m, (action.after m).scopes = m.scopes ∧ (action.after m).table = m.table) :
    action.Keeps StaysConsistent := by
  intro m hm
  refine hm.of_knows (h m).2 fun name => ?_
  rw [(h m).1]

/-- A write either fails and changes nothing, or it is put into the table. -/
theorem recorded
    {action : Action Unit}
    {name value : String}
    (h :
      ∀ m, (∃ fault, action m = .error fault m) ∨
        ∃ m', action m = .ok () m' ∧ m'.table = m.table ∧
          Scopes.Writes name value m.scopes m'.scopes) :
    Keeps StaysConsistent (do
      action
      modify (·.record name value)) := by
  intro m hm
  rw [after_bind]
  rcases h m with ⟨fault, hend⟩ | ⟨m', hend, htable, hwrites⟩
  · rw [hend]
    exact hm
  · rw [hend]
    exact hm.record htable hwrites

theorem declare
    (name value : String)
    (position : Position) :
    Keeps StaysConsistent (do
      Action.declare name value position
      modify (·.record name value)) := by
  refine recorded fun m => ?_
  rcases declare_cases name value position m with ⟨fault, hend⟩ | ⟨scopes, log, hdeclare, hend⟩
  · exact .inl ⟨fault, hend⟩
  · exact .inr ⟨_, hend, rfl, .declare hdeclare⟩

theorem assign
    (name value : String)
    (position : Position) :
    Keeps StaysConsistent (do
      Action.assign name value position
      modify (·.record name value)) := by
  refine recorded fun m => ?_
  rcases assign_cases name value position m with ⟨fault, hend⟩ | ⟨scopes, hassign, hend⟩
  · exact .inl ⟨fault, hend⟩
  · exact .inr ⟨_, hend, rfl, .assign hassign⟩

/-- However a run ends, the table agrees with the frames as it did before. -/
theorem lasting
    (settings : Settings) :
    Lasting settings StaysConsistent where
  refl _ hm := hm
  trans h h' hm := h' (h hm)
  note _ _ hm := hm.of_knows rfl fun _ => Iff.rfl
  frame h hm := (h hm.enter).leave
  declare := declare
  assign := assign
  write text position := by
    refine of_eq fun m => ?_
    obtain ⟨written, hafter⟩ := after_write settings text position m
    rw [hafter]
    exact ⟨rfl, rfl⟩
  flush position := of_eq fun m => by
    rw [after_flush]
    exact ⟨rfl, rfl⟩
  readLine position := by
    refine of_eq fun m => ?_
    rw [after_readLine]
    exact ⟨rfl, rfl⟩

end StaysConsistent

/--
After any runs, one after the other from the start and each ending as it may,
the table agrees with the frames.
-/
theorem consistent_after_runs
    (input : List UInt8)
    (calls : List (Settings × Tree)) :
    (calls.foldl (fun m call => (run call.1 call.2).after m) (fresh input)).Consistent := by
  -- From any machine whose table agrees with its frames, by induction on the runs.
  have hcalls (m : Machine) (hm : m.Consistent) :
      (calls.foldl (fun m call => (run call.1 call.2).after m) m).Consistent := by
    induction calls generalizing m with
    | nil =>
        exact hm
    | cons call calls ih =>
        exact ih _ ((StaysConsistent.lasting call.1).keeps_run call.2 m hm)
  exact hcalls (fresh input) (consistent_fresh input)

end Machine
end CometLang
