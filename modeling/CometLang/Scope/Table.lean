/-!
# Tables keyed by names

A table lists names with what they stand for, in increasing order of the
names, each name once. Two tables with the same content are therefore equal.
Names are ordered by their code points.
-/

namespace CometLang

variable {α : Type}

/-- Names in increasing order, each with what it stands for. -/
structure Table (α : Type) where
  entries : List (String × α)
  sorted : entries.Pairwise fun a b => a.1 < b.1

namespace Table

/-- The table without names. -/
def empty : Table α :=
  ⟨[], List.Pairwise.nil⟩

/-- Puts an entry in its place among sorted ones, replacing one of its name. -/
def insertEntry
    (name : String)
    (value : α) :
    List (String × α) → List (String × α)
  | [] => [(name, value)]
  | entry :: rest =>
      if name < entry.1 then
        (name, value) :: entry :: rest
      else if entry.1 < name then
        entry :: insertEntry name value rest
      else
        (name, value) :: rest

/-- An entry after insertion is the new one or was there before. -/
theorem mem_insertEntry
    {name : String}
    {value : α}
    {entries : List (String × α)}
    {e : String × α}
    (h : e ∈ insertEntry name value entries) :
    e = (name, value) ∨ e ∈ entries := by
  induction entries with
  | nil =>
      simpa [insertEntry] using h
  | cons entry rest ih =>
      rw [insertEntry] at h
      split at h
      · simpa using h
      · split at h
        · rcases List.mem_cons.1 h with h | h
          · exact .inr (by simp [h])
          · rcases ih h with h | h
            · exact .inl h
            · exact .inr (List.mem_cons_of_mem _ h)
        · rcases List.mem_cons.1 h with h | h
          · exact .inl h
          · exact .inr (List.mem_cons_of_mem _ h)

/-- Insertion keeps the names in increasing order. -/
theorem sorted_insertEntry
    (name : String)
    (value : α)
    (entries : List (String × α))
    (h : entries.Pairwise fun a b => a.1 < b.1) :
    (insertEntry name value entries).Pairwise fun a b => a.1 < b.1 := by
  induction entries with
  | nil =>
      simp [insertEntry]
  | cons entry rest ih =>
      obtain ⟨hfirst, hrest⟩ := List.pairwise_cons.1 h
      rw [insertEntry]
      split
      · next hlt =>
          refine List.pairwise_cons.2 ⟨?_, h⟩
          intro e he
          rcases List.mem_cons.1 he with he | he
          · exact he ▸ hlt
          · exact String.lt_trans hlt (hfirst e he)
      · next hle =>
          split
          · next hgt =>
              refine List.pairwise_cons.2 ⟨?_, ih hrest⟩
              intro e he
              rcases mem_insertEntry he with he | he
              · exact he ▸ hgt
              · exact hfirst e he
          · next hge =>
              have heq : name = entry.1 :=
                String.le_antisymm (String.not_lt.1 hge) (String.not_lt.1 hle)
              exact List.pairwise_cons.2 ⟨fun e he => heq ▸ hfirst e he, hrest⟩

/-- The table in which `name` stands for `value` and all else is as before. -/
def insert
    (table : Table α)
    (name : String)
    (value : α) : Table α :=
  ⟨insertEntry name value table.entries,
    sorted_insertEntry name value table.entries table.sorted⟩

/-- What a name stands for. -/
def get?
    (table : Table α)
    (name : String) : Option α :=
  table.entries.lookup name

@[simp] theorem get?_empty
    (name : String) :
    (empty : Table α).get? name = none :=
  rfl

/-- After insertion the name stands for the new value. -/
@[simp] theorem get?_insert_self
    (table : Table α)
    (name : String)
    (value : α) :
    (table.insert name value).get? name = some value := by
  simp only [get?, insert]
  induction table.entries with
  | nil =>
      simp [insertEntry]
  | cons entry rest ih =>
      obtain ⟨key, old⟩ := entry
      rw [insertEntry]
      split
      · simp
      · split
        · next hgt =>
            have hne : (name == key) = false := by
              simp only [beq_eq_false_iff_ne]
              intro heq
              exact String.lt_irrefl _ (heq ▸ hgt)
            simpa [List.lookup_cons, hne] using ih
        · simp

/-- Insertion leaves what every other name stands for. -/
theorem get?_insert_of_ne
    (table : Table α)
    {name other : String}
    (value : α)
    (h : other ≠ name) :
    (table.insert name value).get? other = table.get? other := by
  have hne : (other == name) = false := by
    simpa using h
  simp only [get?, insert]
  induction table.entries with
  | nil =>
      simp [insertEntry, List.lookup_cons, hne]
  | cons entry rest ih =>
      obtain ⟨key, old⟩ := entry
      rw [insertEntry]
      split
      · simp [List.lookup_cons, hne]
      · next hle =>
          split
          · simp [List.lookup_cons, ih]
          · next hge =>
              have heq : name = key :=
                String.le_antisymm (String.not_lt.1 hge) (String.not_lt.1 hle)
              subst heq
              simp [List.lookup_cons, hne]

/-- What a name stands for after insertion is the new value or was so before. -/
theorem get?_insert_eq_some
    {table : Table α}
    {name other : String}
    {value found : α}
    (h : (table.insert name value).get? other = some found) :
    other = name ∧ found = value ∨ table.get? other = some found := by
  by_cases hother : other = name
  · subst hother
    rw [get?_insert_self] at h
    exact .inl ⟨rfl, (Option.some.inj h).symm⟩
  · rw [get?_insert_of_ne table value hother] at h
    exact .inr h

/-- The name stands for something. -/
def binds
    (table : Table α)
    (name : String) : Bool :=
  (table.get? name).isSome

@[simp] theorem binds_empty
    (name : String) :
    (empty : Table α).binds name = false :=
  rfl

/-- After insertion the new name is bound, and every other as before. -/
theorem binds_insert
    (table : Table α)
    (name other : String)
    (value : α) :
    (table.insert name value).binds other = (decide (other = name) || table.binds other) := by
  by_cases h : other = name
  · subst h
    simp [binds]
  · simp [binds, h, get?_insert_of_ne]

/-- The number of names. -/
def size (table : Table α) : Nat :=
  table.entries.length

end Table
end CometLang
