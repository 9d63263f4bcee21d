import CometLang.Proofs.Meaning
import Mathlib.Logic.Function.Basic

/-!
# Worlds with other names

Tables list their names in order, so a table with other names is built anew.
When different names stay different, what a new name stands for is what the old
one stood for, and names that are not new stand for nothing. Since a table is
determined by what its names stand for, everything that is done to the tables of
a world can be done before or after its names are replaced.
-/

namespace CometLang

namespace Table

variable {α β : Type}

/-- In a list with increasing names, what stands behind is found under later names only. -/
theorem lookup_eq_none_of_pairwise
    {name : String}
    {value : α}
    {entries : List (String × α)}
    (h : ((name, value) :: entries).Pairwise fun a b => a.1 < b.1) :
    entries.lookup name = none := by
  rw [List.lookup_eq_none_iff]
  intro entry hentry
  rw [bne_iff_ne]
  intro hname
  have hlt := List.rel_of_pairwise_cons h hentry
  exact String.lt_irrefl _ (hname ▸ hlt)

/-- Behind an entry of another name. -/
theorem lookup_cons_of_ne
    {name key : String}
    (h : name ≠ key)
    (value : α)
    (entries : List (String × α)) :
    ((key, value) :: entries).lookup name = entries.lookup name := by
  rw [List.lookup_cons, beq_eq_false_iff_ne.2 h]

/-- Lists with increasing names are equal if the same is found in them. -/
theorem eq_of_lookup_eq
    {as bs : List (String × α)}
    (has : as.Pairwise fun a b => a.1 < b.1)
    (hbs : bs.Pairwise fun a b => a.1 < b.1)
    (h : ∀ name, as.lookup name = bs.lookup name) :
    as = bs := by
  have hnames
      {name name' : String} {value value' : α} {cs ds : List (String × α)}
      (hds : ((name', value') :: ds).Pairwise fun a b => a.1 < b.1)
      (hlookup : ((name, value) :: cs).lookup name = ((name', value') :: ds).lookup name) :
      name' ≤ name := by
    by_cases heq : name = name'
    · exact heq ▸ String.le_refl name
    · rw [lookup_cons_of_ne heq, List.lookup_cons_self] at hlookup
      obtain ⟨before, after, rfl, -⟩ := List.lookup_eq_some_iff.1 hlookup.symm
      have hlt : name' < name := (List.pairwise_cons.1 hds).1 (name, value) (by simp)
      exact String.not_lt.1 (String.lt_asymm hlt)
  induction as generalizing bs with
  | nil =>
      cases bs with
      | nil =>
          rfl
      | cons b bs =>
          have hfirst := h b.1
          rw [List.lookup_cons_self] at hfirst
          cases hfirst
  | cons a as ih =>
      obtain ⟨name, value⟩ := a
      cases bs with
      | nil =>
          have hfirst := h name
          rw [List.lookup_cons_self] at hfirst
          cases hfirst
      | cons b bs =>
          obtain ⟨name', value'⟩ := b
          obtain rfl : name = name' :=
            String.le_antisymm (hnames has (h name').symm) (hnames hbs (h name))
          obtain rfl : value = value' := by
            simpa [List.lookup_cons] using h name
          congr 1
          refine ih has.of_cons hbs.of_cons fun other => ?_
          by_cases hother : other = name
          · subst hother
            rw [lookup_eq_none_of_pairwise has, lookup_eq_none_of_pairwise hbs]
          · have hrest := h other
            rwa [lookup_cons_of_ne hother, lookup_cons_of_ne hother] at hrest

/-- A table is determined by what its names stand for. -/
theorem ext_get?
    {s t : Table α}
    (h : ∀ name, s.get? name = t.get? name) :
    s = t := by
  obtain ⟨as, has⟩ := s
  obtain ⟨bs, hbs⟩ := t
  obtain rfl : as = bs := eq_of_lookup_eq has hbs h
  rfl

/-- The table with its names and what they stand for replaced. -/
def rename
    (f : String → String)
    (g : α → β)
    (t : Table α) : Table β :=
  t.entries.foldr (fun entry table => table.insert (f entry.1) (g entry.2)) empty

/-- A name that is not new stands for nothing. -/
theorem get?_rename_of_forall_ne
    {f : String → String}
    {other : String}
    (h : ∀ name, f name ≠ other)
    (g : α → β)
    (t : Table α) :
    (t.rename f g).get? other = none := by
  rw [rename]
  induction t.entries with
  | nil =>
      rfl
  | cons entry entries ih =>
      rw [List.foldr_cons, get?_insert_of_ne _ _ (h entry.1).symm, ih]

section

variable {f : String → String}
variable (hf : Function.Injective f)
variable (g : α → β)

include hf

/-- A new name stands for what the old one stood for. -/
theorem get?_rename
    (t : Table α)
    (name : String) :
    (t.rename f g).get? (f name) = (t.get? name).map g := by
  rw [rename, get?.eq_def t]
  induction t.entries with
  | nil =>
      rfl
  | cons entry entries ih =>
      obtain ⟨key, value⟩ := entry
      rw [List.foldr_cons]
      by_cases hname : name = key
      · subst hname
        rw [get?_insert_self, List.lookup_cons_self, Option.map_some]
      · rw [get?_insert_of_ne _ _ (hf.ne hname), ih, lookup_cons_of_ne hname]

/-- An entry is replaced before or after it is put into the table. -/
theorem rename_insert
    (t : Table α)
    (name : String)
    (value : α) :
    (t.insert name value).rename f g = (t.rename f g).insert (f name) (g value) := by
  apply ext_get?
  intro other
  by_cases hother : ∃ old, f old = other
  · obtain ⟨old, rfl⟩ := hother
    rw [get?_rename hf]
    by_cases hold : old = name
    · subst hold
      simp
    · rw [get?_insert_of_ne _ _ hold, get?_insert_of_ne _ _ (hf.ne hold), get?_rename hf]
  · have hnone : ∀ old, f old ≠ other := not_exists.1 hother
    rw [get?_rename_of_forall_ne hnone, get?_insert_of_ne _ _ (hnone name).symm,
      get?_rename_of_forall_ne hnone]

end

@[simp] theorem rename_id
    (t : Table α) :
    t.rename id id = t := by
  apply ext_get?
  intro name
  simpa using get?_rename Function.injective_id id t name

end Table

/-! ## Frames and worlds -/

variable (f : String → String)

/-- The frame with its names replaced. -/
def Frame.rename (frame : Frame) : Frame :=
  Table.rename f id frame

/-- The entry with its name and the names in its frames replaced. -/
def Entry.rename (entry : Entry) : Entry :=
  ⟨f entry.identifier, entry.value, entry.frames.map (Frame.rename f)⟩

/-- The world with all its names replaced. -/
def World.rename (w : World) : World where
  frames := w.frames.map (Frame.rename f)
  closed := w.closed.map (Frame.rename f)
  table := w.table.rename f (Entry.rename f)
  input := w.input
  output := w.output
  flushes := w.flushes

@[simp] theorem Frame.rename_id
    (frame : Frame) :
    frame.rename id = frame :=
  Table.rename_id frame

@[simp] theorem World.rename_id
    (w : World) :
    w.rename id = w := by
  have hframe : Frame.rename id = id := by
    funext frame
    exact frame.rename_id
  have hentry : Entry.rename id = id := by
    funext entry
    rw [Entry.rename, hframe, List.map_id, id]
    rfl
  rw [World.rename, hframe, hentry, List.map_id, List.map_id, Table.rename_id]

section

variable {f}
variable (hf : Function.Injective f)

include hf

theorem Frame.get?_rename
    (frame : Frame)
    (name : String) :
    (frame.rename f).get? (f name) = frame.get? name := by
  rw [Frame.rename, Table.get?_rename hf, Option.map_id, id]

theorem Frame.rename_insert
    (frame : Frame)
    (name value : String) :
    Frame.rename f (frame.insert name value) = (frame.rename f).insert (f name) value :=
  Table.rename_insert hf id frame name value

end

end CometLang
