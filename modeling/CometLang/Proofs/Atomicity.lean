import Mathlib.Data.List.TakeWhile
import CometLang.Proofs.Raising

/-!
# Simple statements are atomic

A declaration, an assignment, a reception, a transmission and a bare arithmetic
expression are simple statements. Each of them reads first, and whatever can go
wrong goes wrong before anything is stored. So a simple statement that fails has
stored nothing, whatever shape its tree has. A reception may have written some of
its prompt by then, and it may have read a line; the others have read nothing.

A simple statement that ends well has stored at most one value: in one frame,
under one name, and under the same name in the table. A declaration stores in the
innermost frame, an assignment and a reception in the nearest one that binds the
name.
-/

namespace CometLang

/-! ## One name of a table, one frame of many -/

/-- The name stands for the value, and every other name for what it stood for. -/
structure Table.Sets
    {α : Type}
    (name : String)
    (value : α)
    (table table' : Table α) : Prop where
  found : table'.get? name = some value
  others : ∀ other, other ≠ name → table'.get? other = table.get? other

theorem Table.sets_insert
    {α : Type}
    (name : String)
    (value : α)
    (table : Table α) :
    Table.Sets name value table (table.insert name value) :=
  ⟨table.get?_insert_self name value, fun _ hother => table.get?_insert_of_ne value hother⟩

/-- An assignment changes the first frame that binds the name, and no other. -/
theorem Scopes.nearest_of_assignIn?
    {name value : String}
    {frames frames' : List Frame}
    (h : assignIn? name value frames = some frames') :
    ∃ front f outer,
      frames = front ++ f :: outer ∧ frames' = front ++ f.insert name value :: outer ∧
        (∀ g ∈ front, g.binds name = false) ∧ f.binds name = true := by
  induction frames generalizing frames' with
  | nil =>
      cases h
  | cons f outer ih =>
      rw [assignIn?] at h
      split at h
      · next hbinds =>
          cases h
          exact ⟨[], f, outer, rfl, rfl, by simp, hbinds⟩
      · next hfree =>
          obtain ⟨outer', houter, rfl⟩ := Option.map_eq_some_iff.1 h
          obtain ⟨front, g, rest, rfl, rfl, hfront, hbinds⟩ := ih houter
          refine ⟨f :: front, g, rest, rfl, rfl, ?_, hbinds⟩
          exact List.forall_mem_cons.2 ⟨by simpa using hfree, hfront⟩

/-! ## Actions that fail before they store -/

namespace Action

open Machine

variable {α β : Type}

/-- If the action fails, the relation holds between the machines before and after. -/
def Atomic
    (R : Machine → Machine → Prop)
    (action : Action α) : Prop :=
  ∀ m fault m', action m = .error fault m' → R m m'

theorem Keeps.atomic
    {R : Machine → Machine → Prop}
    {action : Action α}
    (h : action.Keeps R) :
    action.Atomic R := by
  intro m fault m' hend
  have hm := h m
  rwa [after_of_error hend] at hm

/-- What comes first may fail or not; only what comes last has to be atomic. -/
theorem Atomic.bind
    {R : Machine → Machine → Prop}
    {action : Action α}
    {next : α → Action β}
    (hR : Noting R)
    (h : action.Keeps R)
    (hnext : ∀ a, (next a).Atomic R) :
    (action >>= next).Atomic R := by
  intro m fault m' hend
  rcases bind_eq_error hend with hfirst | ⟨a, between, hfirst, hrest⟩
  · exact h.atomic m fault m' hfirst
  · have hbetween := h m
    rw [after_of_ok hfirst] at hbetween
    exact hR.trans hbetween (hnext a between fault m' hrest)

/-- What is seen of a machine is as before if what comes last does not change it. -/
theorem seen_after_bind
    {γ : Type}
    (see : Machine → γ)
    {action : Action α}
    {next : α → Action β}
    (hnext : ∀ a, (next a).Keeps fun m m' => see m' = see m)
    (m : Machine) :
    see ((action >>= next).after m) = see (action.after m) := by
  rw [after_bind]
  cases hend : action m with
  | ok a between =>
      rw [after_of_ok hend]
      exact hnext a between
  | error fault between =>
      rw [after_of_error hend]

/-- What changes nothing at all ends a sequence with a fault, or lets it go on. -/
theorem bind_cases_of_keeps_eq
    {action : Action α}
    (h : action.Keeps fun m m' => m' = m)
    (next : α → Action β)
    (m : Machine) :
    (∃ fault, (action >>= next) m = .error fault m) ∨
      ∃ a, action m = .ok a m ∧ (action >>= next) m = next a m := by
  have hm := h m
  cases hend : action m with
  | ok a m' =>
      rw [after_of_ok hend] at hm
      subst hm
      exact .inr ⟨a, rfl, bind_of_ok hend⟩
  | error fault m' =>
      rw [after_of_error hend] at hm
      subst hm
      exact .inl ⟨fault, bind_of_error hend⟩

theorem keeps_eq_ofScopes
    (read : Scopes → Except Fault α) :
    (ofScopes read).Keeps fun m m' => m' = m :=
  after_ofScopes read

theorem keeps_eq_ofExcept
    (result : Except Fault α) :
    (ofExcept result).Keeps fun m m' => m' = m :=
  keeps_eq_ofScopes _

theorem exists_of_bind_eq_ok
    {result : Except Fault α}
    {next : α → Except Fault β}
    {b : β}
    (h : result >>= next = .ok b) :
    ∃ a, result = .ok a ∧ next a = .ok b := by
  cases result with
  | ok a =>
      exact ⟨a, rfl, h⟩
  | error fault =>
      cases h

theorem ofExcept_eq_ok
    {result : Except Fault α}
    {a : α}
    {m m' : Machine}
    (h : ofExcept result m = .ok a m') :
    result = .ok a := by
  rw [ofExcept, ofScopes] at h
  cases result with
  | ok b =>
      cases h
      rfl
  | error fault =>
      cases h

/-- A value is stored by an action that either fails or not, then put into the table. -/
def commit
    (store : Action Unit)
    (name value : String)
    (event : Event) : Action Unit := do
  store
  modify (·.record name value)
  Action.note event

section

variable {store : Action Unit} {name value : String} {event : Event}

theorem commit_eq_ok
    {m m' : Machine}
    (h : commit store name value event m = .ok () m') :
    ∃ between, store m = .ok () between ∧ m' = (between.record name value).note event := by
  obtain ⟨_, between, hstore, hrest⟩ := bind_eq_ok h
  cases hrest
  exact ⟨between, hstore, rfl⟩

/-- Behind the storing nothing fails. -/
theorem atomic_commit
    {R : Machine → Machine → Prop}
    (hR : Noting R)
    (hstore : ∀ m fault m', store m = .error fault m' → m' = m) :
    (commit store name value event).Atomic R := by
  intro m fault m' hend
  rcases bind_eq_error hend with hfirst | ⟨_, between, hfirst, hrest⟩
  · rw [hstore m fault m' hfirst]
    exact hR.refl m
  · cases hrest

end

theorem declare_eq_error
    {name value : String}
    {position : Position}
    (m : Machine)
    (fault : Fault)
    (m' : Machine)
    (h : declare name value position m = .error fault m') :
    m' = m := by
  rcases declare_cases name value position m with ⟨other, hend⟩ | ⟨scopes, log, -, hend⟩
  · rw [hend] at h
    cases h
    rfl
  · rw [hend] at h
    cases h

theorem assign_eq_error
    {name value : String}
    {position : Position}
    (m : Machine)
    (fault : Fault)
    (m' : Machine)
    (h : assign name value position m = .error fault m') :
    m' = m := by
  rcases assign_cases name value position m with ⟨other, hend⟩ | ⟨scopes, -, hend⟩
  · rw [hend] at h
    cases h
    rfl
  · rw [hend] at h
    cases h

end Action

/-! ## What is stored -/

/-- The name that a declaration, an assignment or a reception is about. -/
def Tree.HasTarget
    (t : Tree)
    (target : Token) : Prop :=
  ∃ child, t.child? .identifier = some child ∧ Evaluation.leafToken child = .ok target

namespace Machine

open Action Evaluation

/-- The frames, open and closed, and the table are as before. -/
structure SameStore (m m' : Machine) : Prop where
  scopes : m'.scopes = m.scopes
  table : m'.table = m.table

/-- Besides, nothing was read. -/
structure Spared (m m' : Machine) : Prop extends SameStore m m' where
  input : m'.input = m.input

/--
In one frame, the one behind the given ones, the name has got the value. The
table has an entry for it, and nothing else is stored otherwise than before.
-/
structure StoresIn
    (front : List Frame)
    (f : Frame)
    (name value : String)
    (m m' : Machine) : Prop where
  frames :
    ∃ f' outer,
      m.scopes.frames = front ++ f :: outer ∧ m'.scopes.frames = front ++ f' :: outer ∧
        Table.Sets name value f f'
  history : m'.scopes.history = m.scopes.history
  table : Table.Sets name ⟨name, value, m'.scopes.frames⟩ m.table m'.table

theorem noting_sameStore : Noting SameStore where
  refl _ := ⟨rfl, rfl⟩
  trans h h' := ⟨h'.scopes.trans h.scopes, h'.table.trans h.table⟩
  note _ _ := ⟨rfl, rfl⟩

theorem noting_spared : Noting Spared where
  refl m := ⟨noting_sameStore.refl m, rfl⟩
  trans h h' := ⟨noting_sameStore.trans h.toSameStore h'.toSameStore, h'.input.trans h.input⟩
  note m event := ⟨noting_sameStore.note m event, rfl⟩

theorem keeps_spared_write
    (settings : Settings)
    (text : String)
    (position : Position) :
    (write settings text position).Keeps Spared := by
  intro m
  obtain ⟨written, hafter⟩ := after_write settings text position m
  rw [hafter]
  exact ⟨⟨rfl, rfl⟩, rfl⟩

theorem keeps_sameStore_write
    (settings : Settings)
    (text : String)
    (position : Position) :
    (write settings text position).Keeps SameStore :=
  fun m => (keeps_spared_write settings text position m).toSameStore

theorem keeps_sameStore_flush
    (settings : Settings)
    (position : Position) :
    (flush settings position).Keeps SameStore := by
  intro m
  rw [after_flush]
  exact ⟨rfl, rfl⟩

theorem keeps_sameStore_readLine
    (position : Position) :
    (readLine position).Keeps SameStore := by
  intro m
  rw [after_readLine]
  exact ⟨rfl, rfl⟩

section

variable {name value : String} {position : Position} {event : Event}
variable {m between m' : Machine}

/-- A declaration among open frames stores in the innermost one, where the name is new. -/
theorem storesIn_of_declare
    (hsame : SameStore m between)
    (hopen : m.scopes.frames ≠ [])
    (h : commit (declare name value position) name value event between = .ok () m') :
    ∃ inner, inner.binds name = false ∧ StoresIn [] inner name value m m' := by
  obtain ⟨stored, hstore, rfl⟩ := commit_eq_ok h
  rcases declare_cases name value position between with
    ⟨fault, hend⟩ | ⟨scopes, log, hdeclare, hend⟩
  · rw [hend] at hstore
    cases hstore
  · rw [hend] at hstore
    cases hstore
    obtain ⟨inner, outer, hframes⟩ := List.exists_cons_of_ne_nil hopen
    rw [hsame.scopes, Scopes.declare, hframes] at hdeclare
    dsimp only at hdeclare
    split at hdeclare
    · cases hdeclare
    · next hfree =>
        cases hdeclare
        refine ⟨inner, by simpa using hfree, ?_, rfl, ?_⟩
        · exact ⟨_, outer, hframes, rfl, Table.sets_insert name value inner⟩
        · rw [← hsame.table]
          exact Table.sets_insert name _ between.table

/-- An assignment stores in the nearest frame that binds the name. -/
theorem storesIn_of_assign
    (hsame : SameStore m between)
    (h : commit (assign name value position) name value event between = .ok () m') :
    ∃ front f,
      (∀ g ∈ front, g.binds name = false) ∧ f.binds name = true ∧
        StoresIn front f name value m m' := by
  obtain ⟨stored, hstore, rfl⟩ := commit_eq_ok h
  rcases assign_cases name value position between with ⟨fault, hend⟩ | ⟨scopes, hassign, hend⟩
  · rw [hend] at hstore
    cases hstore
  · rw [hend] at hstore
    cases hstore
    rw [hsame.scopes, Scopes.assign] at hassign
    cases hframes : Scopes.assignIn? name value m.scopes.frames with
    | none =>
        rw [hframes] at hassign
        cases hassign
    | some frames =>
        rw [hframes] at hassign
        cases hassign
        obtain ⟨front, f, outer, hbefore, hbehind, hfront, hbinds⟩ :=
          Scopes.nearest_of_assignIn? hframes
        refine ⟨front, f, hfront, hbinds, ?_, rfl, ?_⟩
        · exact ⟨_, outer, hbefore, hbehind, Table.sets_insert name value f⟩
        · rw [← hsame.table]
          exact Table.sets_insert name _ between.table

end

/-! ## Statements that only read, and store in the end -/

theorem child?_of_partOf
    {t child : Tree}
    {form : Nonterminal}
    {part : String}
    (h : partOf t form part = .ok child) :
    t.child? form = some child := by
  rw [partOf] at h
  cases hchild : t.child? form with
  | none =>
      rw [hchild] at h
      cases h
  | some found =>
      rw [hchild] at h
      cases h
      rfl

theorem hasTarget_of_bindingParts
    {t right : Tree}
    {target : Token}
    (h : bindingParts t = .ok (target, right)) :
    t.HasTarget target := by
  obtain ⟨child, hchild, hrest⟩ := exists_of_bind_eq_ok h
  split at hrest
  · cases hrest
  · obtain ⟨token, htoken, hpair⟩ := exists_of_bind_eq_ok hrest
    cases hpair
    exact ⟨child, child?_of_partOf hchild, htoken⟩

theorem atomic_runDeclaration
    (t : Tree) :
    (runDeclaration t).Atomic Spared := by
  refine .bind noting_spared (noting_spared.keeps_ofExcept _) fun (target, right) => ?_
  refine .bind noting_spared (noting_spared.keeps_valueText right) fun value => ?_
  exact atomic_commit noting_spared declare_eq_error

theorem atomic_runAssignment
    (t : Tree) :
    (runAssignment t).Atomic Spared := by
  refine .bind noting_spared (noting_spared.keeps_ofExcept _) fun (target, right) => ?_
  refine .bind noting_spared (noting_spared.keeps_valueText right) fun value => ?_
  exact atomic_commit noting_spared assign_eq_error

/-- Both kinds of statement find their target and the value before they store it. -/
theorem exists_value_of_binding
    {t : Tree}
    {m m' : Machine}
    (store : Token → String → Action Unit)
    (h :
      (do
        let (target, right) ← ofExcept (bindingParts t)
        let value ← valueText right
        store target value) m = .ok () m') :
    ∃ target value between,
      t.HasTarget target ∧ SameStore m between ∧ store target value between = .ok () m' := by
  obtain ⟨⟨target, right⟩, found, hparts, hrest⟩ := bind_eq_ok h
  obtain ⟨value, between, hvalue, hstore⟩ := bind_eq_ok hrest
  have hfound := noting_sameStore.keeps_ofExcept (bindingParts t) m
  rw [after_of_ok hparts] at hfound
  have hbetween := noting_sameStore.keeps_valueText right found
  rw [after_of_ok hvalue] at hbetween
  refine ⟨target, value, between, hasTarget_of_bindingParts (ofExcept_eq_ok hparts), ?_, hstore⟩
  exact noting_sameStore.trans hfound hbetween

theorem storesIn_of_runDeclaration
    {t : Tree}
    {m m' : Machine}
    (hopen : m.scopes.frames ≠ [])
    (h : runDeclaration t m = .ok () m') :
    ∃ target value inner,
      t.HasTarget target ∧ inner.binds target.value = false ∧
        StoresIn [] inner target.value value m m' := by
  obtain ⟨target, value, between, htarget, hsame, hstore⟩ := exists_value_of_binding
    (fun target value => commit (declare target.value value target.position) target.value value
      (.declared target.value value)) h
  obtain ⟨inner, hfree, hstores⟩ := storesIn_of_declare hsame hopen hstore
  exact ⟨target, value, inner, htarget, hfree, hstores⟩

theorem storesIn_of_runAssignment
    {t : Tree}
    {m m' : Machine}
    (h : runAssignment t m = .ok () m') :
    ∃ target value front f,
      t.HasTarget target ∧ (∀ g ∈ front, g.binds target.value = false) ∧
        f.binds target.value = true ∧ StoresIn front f target.value value m m' := by
  obtain ⟨target, value, between, htarget, hsame, hstore⟩ := exists_value_of_binding
    (fun target value => commit (assign target.value value target.position) target.value value
      (.assigned target.value value)) h
  obtain ⟨front, f, hfront, hbinds, hstores⟩ := storesIn_of_assign hsame hstore
  exact ⟨target, value, front, f, htarget, hfront, hbinds, hstores⟩

/-- A transmission stores nothing, however it ends. -/
theorem keeps_runTransmission
    (settings : Settings)
    (t : Tree) :
    (runTransmission settings t).Keeps Spared := by
  refine noting_spared.keeps_bind (noting_spared.keeps_ofExcept _) fun io => ?_
  refine noting_spared.keeps_bind (noting_spared.keeps_argumentText? io) fun text => ?_
  cases text with
  | some text =>
      exact keeps_spared_write settings _ _
  | none =>
      exact noting_spared.keeps_throw _

/-! ## Receptions -/

/-- A numeral that was received is stored. -/
def storeAnswer
    (target : Token)
    (line : String) : Action Unit :=
  let received := Text.trimmed line
  if Numeral.isNumeral received.toList then
    commit (assign target.value received target.position) target.value received
      (.received target.value received)
  else
    throw (notANumber received target.position)

/-- Once a reception knows its target and its prompt, it asks and stores the answer. -/
def askFor
    (settings : Settings)
    (target : Token)
    (question : String) : Action Unit := do
  write settings question target.position
  flush settings target.position
  let line ← readLine target.position
  storeAnswer target line

/-- The text that a reception asks with, if it comes so far. -/
def prompt
    (t : Tree)
    (m : Machine) : String :=
  match t.child? .ioStmt with
  | none => ""
  | some io =>
      match argumentText? io m with
      | .ok text _ => text.getD ""
      | .error _ _ => ""

theorem keeps_eq_argumentText?
    (io : Tree) :
    (argumentText? io).Keeps fun m m' => m' = m := by
  have htrans {a b c : Machine} (h : b = a) (h' : c = b) : c = a := h'.trans h
  rw [argumentText?]
  split
  · exact (keeps_eq_ofScopes _).bind htrans fun token _ => rfl
  · split
    · rw [map_eq_pure_bind]
      refine Keeps.bind htrans ?_ fun text _ => rfl
      exact (keeps_eq_ofScopes _).bind htrans fun token => keeps_eq_ofScopes _
    · exact fun _ => rfl

/-- A reception that cannot ask changes nothing. -/
theorem runReception_cases
    (settings : Settings)
    (t : Tree)
    (m : Machine) :
    (∃ fault, runReception settings t m = .error fault m) ∨
      ∃ target,
        t.HasTarget target ∧
          runReception settings t m = askFor settings target (prompt t m) m := by
  -- Five things are looked up one after the other, and none of them changes the machine.
  rw [runReception]
  rcases bind_cases_of_keeps_eq (keeps_eq_ofExcept _) _ m with hfault | ⟨child, hchild, hrest⟩
  · exact .inl hfault
  rw [hrest]
  rcases bind_cases_of_keeps_eq (keeps_eq_ofExcept _) _ m with hfault | ⟨target, htarget, hrest⟩
  · exact .inl hfault
  rw [hrest]
  rcases bind_cases_of_keeps_eq (keeps_eq_ofScopes _) _ m with hfault | ⟨value, -, hrest⟩
  · exact .inl hfault
  rw [hrest]
  rcases bind_cases_of_keeps_eq (keeps_eq_ofExcept _) _ m with hfault | ⟨io, hio, hrest⟩
  · exact .inl hfault
  rw [hrest]
  rcases bind_cases_of_keeps_eq (keeps_eq_argumentText? io) _ m with
    hfault | ⟨argument, hargument, hrest⟩
  · exact .inl hfault
  rw [hrest]
  have hprompt : prompt t m = argument.getD "" := by
    rw [prompt, child?_of_partOf (ofExcept_eq_ok hio)]
    dsimp only
    rw [hargument]
  rw [hprompt]
  exact .inr ⟨target, ⟨child, child?_of_partOf (ofExcept_eq_ok hchild), ofExcept_eq_ok htarget⟩,
    rfl⟩

theorem atomic_askFor
    (settings : Settings)
    (target : Token)
    (question : String) :
    (askFor settings target question).Atomic SameStore := by
  refine .bind noting_sameStore (keeps_sameStore_write settings _ _) fun _ => ?_
  refine .bind noting_sameStore (keeps_sameStore_flush settings _) fun _ => ?_
  refine .bind noting_sameStore (keeps_sameStore_readLine _) fun line => ?_
  rw [storeAnswer]
  split
  · exact atomic_commit noting_sameStore assign_eq_error
  · exact (noting_sameStore.keeps_throw _).atomic

theorem storesIn_of_askFor
    {settings : Settings}
    {target : Token}
    {question : String}
    {m m' : Machine}
    (h : askFor settings target question m = .ok () m') :
    ∃ value front f,
      (∀ g ∈ front, g.binds target.value = false) ∧ f.binds target.value = true ∧
        StoresIn front f target.value value m m' := by
  obtain ⟨_, asked, hwrite, hrest⟩ := bind_eq_ok h
  obtain ⟨_, flushed, hflush, hrest⟩ := bind_eq_ok hrest
  obtain ⟨line, read, hread, hrest⟩ := bind_eq_ok hrest
  have hasked := keeps_sameStore_write settings question target.position m
  rw [after_of_ok hwrite] at hasked
  have hflushed := keeps_sameStore_flush settings target.position asked
  rw [after_of_ok hflush] at hflushed
  have hsame := keeps_sameStore_readLine target.position flushed
  rw [after_of_ok hread] at hsame
  have hm := noting_sameStore.trans hasked (noting_sameStore.trans hflushed hsame)
  rw [storeAnswer] at hrest
  split at hrest
  · obtain ⟨front, f, hfront, hbinds, hstores⟩ := storesIn_of_assign hm hrest
    exact ⟨_, front, f, hfront, hbinds, hstores⟩
  · cases hrest

/-- What is written is a beginning of the text; it is all of it if the sink takes all. -/
theorem output_after_write
    (settings : Settings)
    (text : String)
    (position : Position)
    (m : Machine) :
    ∃ written, written <+: text.toUTF8.toList ∧
      ((write settings text position).after m).output = m.output ++ written ∧
      (settings.sink.TakesAll → written = text.toUTF8.toList) := by
  rw [after, write]
  cases hrefused : settings.sink.refusal? m.output m.flushes text.toUTF8.toList with
  | none =>
      exact ⟨_, List.prefix_refl _, rfl, fun _ => rfl⟩
  | some refusal =>
      exact ⟨_, List.take_prefix refusal.taken _, rfl,
        fun hall => absurd hall (Sink.not_takesAll hrefused)⟩

/-- Storing an answer neither writes nor reads. -/
theorem streams_after_storeAnswer
    (target : Token)
    (line : String)
    (m : Machine) :
    ((storeAnswer target line).after m).output = m.output ∧
      ((storeAnswer target line).after m).input = m.input := by
  rw [storeAnswer]
  split
  · rcases assign_cases target.value (Text.trimmed line) target.position m with
      ⟨fault, hend⟩ | ⟨scopes, -, hend⟩
    · rw [commit, after_of_error (bind_of_error hend)]
      exact ⟨rfl, rfl⟩
    · rw [commit, after, bind_of_ok hend]
      exact ⟨rfl, rfl⟩
  · exact ⟨rfl, rfl⟩

/-- A reception writes nothing but its question. -/
theorem output_after_askFor
    (settings : Settings)
    (target : Token)
    (question : String)
    (m : Machine) :
    ((askFor settings target question).after m).output
      = ((write settings question target.position).after m).output := by
  have hR : Noting fun m m' : Machine => m'.output = m.output :=
    ⟨fun _ => rfl, fun h h' => h'.trans h, fun _ _ => rfl⟩
  refine seen_after_bind Machine.output (fun _ => ?_) m
  refine hR.keeps_bind (fun m => by rw [after_flush]) fun _ => ?_
  refine hR.keeps_bind (fun m => by rw [after_readLine]) fun line m => ?_
  exact (streams_after_storeAnswer target line m).1

/-- The first line of the input has a newline at most at its end. -/
theorem newline_splitLine
    (input : List UInt8) :
    10 ∉ (splitLine input).1.dropLast := by
  have hline : 10 ∉ input.takeWhile (· != 10) := by
    intro hmem
    have hne := List.mem_takeWhile_imp hmem
    cases hne
  rw [splitLine, List.span_eq_takeWhile_dropWhile]
  cases input.dropWhile (· != 10) with
  | nil =>
      exact fun hmem => hline (List.dropLast_subset _ hmem)
  | cons newline rest =>
      simpa using hline

/-- Some bytes were read, and no newline is among them but for the last one. -/
def ReadsLine (m m' : Machine) : Prop :=
  ∃ line, m.input = line ++ m'.input ∧ 10 ∉ line.dropLast

theorem ReadsLine.of_input_eq
    {m m' : Machine}
    (h : m'.input = m.input) :
    m.ReadsLine m' :=
  ⟨[], h.symm, by simp⟩

/-- Where nothing is read before, a line is read at most if no more is read behind. -/
theorem ReadsLine.bind
    {α β : Type}
    {action : Action α}
    {next : α → Action β}
    (h : action.Keeps fun m m' => m'.input = m.input)
    (hnext : ∀ a, (next a).Keeps ReadsLine) :
    (action >>= next).Keeps ReadsLine := by
  intro m
  have hm := h m
  rw [after_bind]
  cases hend : action m with
  | ok a between =>
      rw [after_of_ok hend] at hm
      obtain ⟨line, hinput, hnewline⟩ := hnext a between
      exact ⟨line, hm ▸ hinput, hnewline⟩
  | error fault between =>
      rw [after_of_error hend] at hm
      exact .of_input_eq hm

/-- A reception reads one line at most. -/
theorem readsLine_askFor
    (settings : Settings)
    (target : Token)
    (question : String) :
    (askFor settings target question).Keeps ReadsLine := by
  have hR : Noting fun m m' : Machine => m'.input = m.input :=
    ⟨fun _ => rfl, fun h h' => h'.trans h, fun _ _ => rfl⟩
  refine ReadsLine.bind (fun m => (keeps_spared_write settings question _ m).input) fun _ => ?_
  refine ReadsLine.bind (fun m => by rw [after_flush]) fun _ m => ?_
  have hinput : ((readLine target.position >>= storeAnswer target).after m).input
      = ((readLine target.position).after m).input :=
    seen_after_bind Machine.input (fun line m => (streams_after_storeAnswer target line m).2) m
  rw [after_readLine] at hinput
  exact ⟨_, by rw [hinput, splitLine_append], newline_splitLine m.input⟩

/-- A reception writes a beginning of its prompt at most, and reads a line at most. -/
theorem streams_after_runReception
    (settings : Settings)
    (t : Tree)
    (m : Machine) :
    (∃ written, written <+: (prompt t m).toUTF8.toList ∧
      ((runReception settings t).after m).output = m.output ++ written) ∧
      m.ReadsLine ((runReception settings t).after m) := by
  rcases runReception_cases settings t m with ⟨fault, hend⟩ | ⟨target, -, hend⟩
  · rw [after_of_error hend]
    exact ⟨⟨[], List.nil_prefix, by simp⟩, .of_input_eq rfl⟩
  · have hafter : (runReception settings t).after m
        = (askFor settings target (prompt t m)).after m := by
      rw [after, hend, after]
    rw [hafter, output_after_askFor]
    obtain ⟨written, hprefix, houtput, -⟩ :=
      output_after_write settings (prompt t m) target.position m
    exact ⟨⟨written, hprefix, houtput⟩, readsLine_askFor settings target _ m⟩

theorem atomic_runReception
    (settings : Settings)
    (t : Tree) :
    (runReception settings t).Atomic SameStore := by
  intro m fault m' h
  rcases runReception_cases settings t m with ⟨other, hend⟩ | ⟨target, -, hend⟩
  · rw [hend] at h
    cases h
    exact noting_sameStore.refl m
  · exact atomic_askFor settings target _ m fault m' (hend ▸ h)

theorem storesIn_of_runReception
    {settings : Settings}
    {t : Tree}
    {m m' : Machine}
    (h : runReception settings t m = .ok () m') :
    ∃ target value front f,
      t.HasTarget target ∧ (∀ g ∈ front, g.binds target.value = false) ∧
        f.binds target.value = true ∧ StoresIn front f target.value value m m' := by
  rcases runReception_cases settings t m with ⟨fault, hend⟩ | ⟨target, htarget, hend⟩
  · rw [hend] at h
    cases h
  · obtain ⟨value, front, f, hfront, hbinds, hstores⟩ := storesIn_of_askFor (hend ▸ h)
    exact ⟨target, value, front, f, htarget, hfront, hbinds, hstores⟩

end Machine

/-! ## Simple statements -/

/-- The phrases that are simple statements. -/
def Nonterminal.isSimple : Nonterminal → Bool
  | .decStmt | .assignStmt | .receptionStmt | .transmissionStmt | .arithExp => true
  | _ => false

namespace Machine

open Action

/-- A simple statement that fails has stored nothing. -/
theorem sameStore_of_error
    {settings : Settings}
    {form : Nonterminal}
    (hform : form.isSimple = true)
    {children : List Tree}
    {m m' : Machine}
    {fault : Fault}
    (h : run settings (.node (.nonterminal form) children) m = .error fault m') :
    SameStore m m' ∧ (form ≠ .receptionStmt → m'.input = m.input) := by
  have hspared (hm : Spared m m') :
      SameStore m m' ∧ (form ≠ .receptionStmt → m'.input = m.input) :=
    ⟨hm.toSameStore, fun _ => hm.input⟩
  cases form with
  | decStmt =>
      rw [run] at h
      exact hspared (atomic_runDeclaration _ m fault m' h)
  | assignStmt =>
      rw [run] at h
      exact hspared (atomic_runAssignment _ m fault m' h)
  | transmissionStmt =>
      rw [run] at h
      exact hspared ((keeps_runTransmission settings _).atomic m fault m' h)
  | receptionStmt =>
      rw [run] at h
      exact ⟨atomic_runReception settings _ m fault m' h, fun hne => absurd rfl hne⟩
  | arithExp =>
      rw [run] at h
      exact hspared ((noting_spared.keeps_runArithmetic _).atomic m fault m' h)
  | _ =>
      cases hform

/--
Let a simple statement be run, whatever its tree looks like. If it fails, then the
frames and the table are as before. A reception has written a beginning of its
prompt and read a line at most; any other has read nothing. If it ends well among
open frames, then a transmission and a bare expression have stored nothing. A
declaration has stored one value, in the innermost frame; an assignment and a
reception have stored one in the nearest frame that binds the name. All else that
is stored is as before.
-/
theorem simple_statement_stores_one_or_nothing
    (settings : Settings)
    (form : Nonterminal)
    (hform : form.isSimple = true)
    (children : List Tree)
    (m : Machine) :
    (∀ fault m', run settings (.node (.nonterminal form) children) m = .error fault m' →
      SameStore m m' ∧ (form ≠ .receptionStmt → m'.input = m.input) ∧
        (form = .receptionStmt →
          m.ReadsLine m' ∧
            ∃ written,
              written <+: (prompt (.node (.nonterminal form) children) m).toUTF8.toList ∧
                m'.output = m.output ++ written)) ∧
      ∀ m', run settings (.node (.nonterminal form) children) m = .ok () m' →
        m.scopes.frames ≠ [] →
          (form = .transmissionStmt ∨ form = .arithExp → SameStore m m') ∧
            (form = .decStmt →
              ∃ target value inner,
                (Tree.node (.nonterminal form) children).HasTarget target ∧
                  inner.binds target.value = false ∧
                  StoresIn [] inner target.value value m m') ∧
            (form = .assignStmt ∨ form = .receptionStmt →
              ∃ target value front f,
                (Tree.node (.nonterminal form) children).HasTarget target ∧
                  (∀ g ∈ front, g.binds target.value = false) ∧ f.binds target.value = true ∧
                  StoresIn front f target.value value m m') := by
  constructor
  · intro fault m' h
    obtain ⟨hsame, hinput⟩ := sameStore_of_error hform h
    refine ⟨hsame, hinput, ?_⟩
    rintro rfl
    rw [run] at h
    obtain ⟨hwritten, hread⟩ := streams_after_runReception settings
      (.node (.nonterminal .receptionStmt) children) m
    rw [after_of_error h] at hwritten hread
    exact ⟨hread, hwritten⟩
  · intro m' h hopen
    refine ⟨?_, ?_, ?_⟩
    · rintro (rfl | rfl)
      · rw [run] at h
        have hm := keeps_runTransmission settings
          (.node (.nonterminal .transmissionStmt) children) m
        rw [after_of_ok h] at hm
        exact hm.toSameStore
      · rw [run] at h
        have hm := noting_sameStore.keeps_runArithmetic (.node (.nonterminal .arithExp) children) m
        rwa [after_of_ok h] at hm
    · rintro rfl
      rw [run] at h
      exact storesIn_of_runDeclaration hopen h
    · rintro (rfl | rfl)
      · rw [run] at h
        exact storesIn_of_runAssignment h
      · rw [run] at h
        exact storesIn_of_runReception h

/-- The parts of `x = Reception("n");` that are looked at. -/
def receptionForX : List Tree :=
  [.node (.nonterminal .identifier) [.leaf ⟨.identifier, "x", ⟨.unknown, .unknown⟩⟩],
    .node (.nonterminal .ioStmt)
      [.node (.nonterminal .string) [.leaf ⟨.string, "\"n\"", ⟨.unknown, .unknown⟩⟩]]]

/-- Two frames are open, and the outer one binds `x`. -/
def boundOutside (input : List UInt8) : Machine :=
  ⟨⟨[Table.empty, Table.empty.insert "x" "1"], []⟩, Table.empty, input, #[], 0, []⟩

/-- A line that is no number is not stored; one that is goes where `x` is bound. -/
theorem reception_stores_one_or_nothing :
    (∃ fault m',
      run {} (.node (.nonterminal .receptionStmt) receptionForX) (boundOutside [97, 10, 55, 10])
          = .error fault m' ∧
        SameStore (boundOutside [97, 10, 55, 10]) m' ∧ m'.input = [55, 10]) ∧
      ∃ m' name value front f,
        run {} (.node (.nonterminal .receptionStmt) receptionForX) (boundOutside [55, 10])
            = .ok () m' ∧
          (∀ g ∈ front, g.binds name = false) ∧ f.binds name = true ∧
          StoresIn front f name value (boundOutside [55, 10]) m' := by
  constructor
  · have hfails :
        (match run {} (.node (.nonterminal .receptionStmt) receptionForX)
            (boundOutside [97, 10, 55, 10]) with
          | .ok _ _ => false
          | .error _ m' => m'.input == [55, 10])
          = true := by
      decide +kernel
    split at hfails
    · cases hfails
    · next fault m' hend =>
        have hfailed := (simple_statement_stores_one_or_nothing {} .receptionStmt rfl
          receptionForX (boundOutside [97, 10, 55, 10])).1 fault m' hend
        exact ⟨fault, m', hend, hfailed.1, by simpa using hfails⟩
  · have hends :
        (match run {} (.node (.nonterminal .receptionStmt) receptionForX)
            (boundOutside [55, 10]) with
          | .ok _ _ => true
          | .error _ _ => false)
          = true := by
      decide +kernel
    split at hends
    · next m' hend =>
        obtain ⟨target, value, front, f, -, hfront, hbinds, hstores⟩ :=
          ((simple_statement_stores_one_or_nothing {} .receptionStmt rfl
            receptionForX (boundOutside [55, 10])).2 m' hend (List.cons_ne_nil _ _)).2.2
            (.inr rfl)
        exact ⟨m', target.value, value, front, f, hend, hfront, hbinds, hstores⟩
    · cases hends

end Machine
end CometLang
