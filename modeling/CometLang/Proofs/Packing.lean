import CometLang.Derivation.Stack

/-!
# Packed stacks

A stack is packed if its symbols stand in the first slots, in order, and all
other slots are free. The gaps between taken slots are closed in one pass over
the slots, which exchanges them in place: at any moment of it the slots are in
three regions, the symbols found so far, a gap of free slots behind them, and
the slots not yet read. When all are read the stack is packed, whatever it was.

So a reduction always leaves a packed stack. If the stack was packed before, the
symbols are spliced: the phrase takes the place of those in its window, also
where the window reaches into the free slots or lies in them.
-/

namespace CometLang
namespace Stack

/-- The symbols in the first slots, and free slots behind them. -/
def packed
    (capacity : Nat)
    (symbols : List Symbol) : Stack :=
  ⟨symbols.map some ++ List.replicate (capacity - symbols.length) none,
    symbols.length⟩

@[simp] theorem symbols_packed
    (capacity : Nat)
    (symbols : List Symbol) :
    (packed capacity symbols).symbols = symbols := by
  have htake :
      (symbols.map some ++ List.replicate (capacity - symbols.length) none).take
          symbols.length
        = symbols.map some :=
    List.take_left' (by simp)
  rw [Stack.symbols, packed, htake]
  simp

theorem capacity_packed
    {capacity : Nat}
    {symbols : List Symbol}
    (h : symbols.length ≤ capacity) :
    (packed capacity symbols).capacity = capacity := by
  simp only [Stack.capacity, packed, List.length_append, List.length_map,
    List.length_replicate]
  omega

/-- A stack that only has free slots is packed. -/
theorem withCapacity_eq_packed
    (capacity : Nat) :
    withCapacity capacity = packed capacity [] := by
  simp [withCapacity, packed]

/-- A new symbol takes the first free slot. -/
theorem push_packed
    {capacity : Nat}
    {symbols : List Symbol}
    (s : Symbol)
    (h : symbols.length < capacity) :
    (packed capacity symbols).push s = packed capacity (symbols ++ [s]) := by
  obtain ⟨free, hfree⟩ : ∃ free, capacity - symbols.length = free + 1 :=
    ⟨capacity - symbols.length - 1, by omega⟩
  have hrest : capacity - (symbols.length + 1) = free := by
    omega
  have hset :
      (symbols.map some ++ List.replicate (free + 1) none).set symbols.length (some s)
        = symbols.map some ++ some s :: List.replicate free none := by
    rw [List.set_append_right _ _ (by simp)]
    simp [List.replicate_succ]
  have hslots :
      symbols.length
        < (symbols.map some ++ List.replicate (free + 1) (none : Option Symbol)).length := by
    simp
  simp only [packed, push, hfree, hslots, if_true, hset]
  simp [hrest]

/-- Where no slot is free, a new symbol brings its own. -/
theorem push_packed_full
    (symbols : List Symbol)
    (s : Symbol) :
    (packed symbols.length symbols).push s
      = packed (symbols.length + 1) (symbols ++ [s]) := by
  simp [packed, push]

/-! ## Closing the gaps -/

/--
In the middle of closing the gaps: the symbols found so far stand in front, a
gap is behind them, and the rest is not yet read. The first slot of the gap is
the next one to be written.
-/
def partway
    (front : List Symbol)
    (gap : Nat)
    (rest : List (Option Symbol)) : Array (Option Symbol) × Nat :=
  ((front.map some ++ List.replicate gap none ++ rest).toArray, front.length)

theorem getElem?_partway
    (front : List Symbol)
    (gap : Nat)
    (slot : Option Symbol)
    (rest : List (Option Symbol)) :
    (partway front gap (slot :: rest)).1[front.length + gap]? = some slot := by
  simp [partway]

/-- A free slot widens the gap in front of it. -/
theorem replicate_none_append
    (gap : Nat)
    (rest : List (Option Symbol)) :
    List.replicate gap none ++ none :: rest = List.replicate (gap + 1) none ++ rest := by
  simp [List.replicate_succ']

/-- The symbol behind the gap changes places with the gap's first slot. -/
theorem swapIfInBounds_partway
    (front : List Symbol)
    (gap : Nat)
    (s : Symbol)
    (rest : List (Option Symbol)) :
    (partway front gap (some s :: rest)).1.swapIfInBounds front.length (front.length + gap)
      = (partway (front ++ [s]) gap rest).1 := by
  cases gap with
  | zero =>
      -- Without a gap the slot changes places with itself.
      simp [partway, Array.swapIfInBounds, Array.swap_def]
  | succ gap =>
      have hset :
          (List.replicate (gap + 1) none).set 0 (some s) ++ none :: rest
            = some s :: (List.replicate (gap + 1) none ++ rest) := by
        rw [List.replicate_succ, List.set_cons_zero, List.cons_append, replicate_none_append,
          List.replicate_succ]
      simp [partway, Array.swapIfInBounds, Array.swap_def, hset]

theorem closeGapAt_free
    (front : List Symbol)
    (gap : Nat)
    (rest : List (Option Symbol)) :
    closeGapAt (partway front gap (none :: rest)) (front.length + gap)
      = partway front (gap + 1) rest := by
  have hread := getElem?_partway front gap none rest
  have hslots :
      (partway front gap (none :: rest)).1 = (partway front (gap + 1) rest).1 := by
    simp only [partway, List.append_assoc, replicate_none_append]
  simp only [closeGapAt, hread]
  exact Prod.ext hslots rfl

theorem closeGapAt_taken
    (front : List Symbol)
    (gap : Nat)
    (s : Symbol)
    (rest : List (Option Symbol)) :
    closeGapAt (partway front gap (some s :: rest)) (front.length + gap)
      = partway (front ++ [s]) gap rest := by
  have hread := getElem?_partway front gap (some s) rest
  have hslots := swapIfInBounds_partway front gap s rest
  simp only [closeGapAt, hread]
  refine Prod.ext hslots ?_
  simp [partway]

/-- Reading on to the end finds all symbols of the rest, and its free slots join the gap. -/
theorem foldl_closeGapAt
    (front : List Symbol)
    (gap : Nat)
    (rest : List (Option Symbol)) :
    (List.range' (front.length + gap) rest.length).foldl closeGapAt (partway front gap rest)
      = partway (front ++ rest.filterMap id)
          (gap + (rest.length - (rest.filterMap id).length)) [] := by
  -- The induction is on the slots not yet read; each round moves one of them into its region.
  induction rest generalizing front gap with
  | nil =>
      simp
  | cons slot rest ih =>
      have hfound : (rest.filterMap id).length ≤ rest.length :=
        List.length_filterMap_le id rest
      rw [List.length_cons, List.range'_succ, List.foldl_cons]
      cases slot with
      | none =>
          have hgap :
              gap + 1 + (rest.length - (rest.filterMap id).length)
                = gap + (rest.length + 1 - (rest.filterMap id).length) := by
            omega
          rw [closeGapAt_free, Nat.add_assoc, ih, hgap]
          rfl
      | some s =>
          have hread : front.length + gap + 1 = (front ++ [s]).length + gap := by
            rw [List.length_append, List.length_singleton]
            omega
          rw [closeGapAt_taken, hread, ih]
          simp

/-- Closing the gaps packs the symbols that stand in any of the slots, in their order. -/
theorem compact_eq_packed
    (slots : List (Option Symbol)) :
    compact slots = packed slots.length (slots.filterMap id) := by
  have hpass := foldl_closeGapAt [] 0 slots
  have hstart : partway [] 0 slots = (slots.toArray, 0) := by
    simp [partway]
  rw [hstart, List.length_nil, ← List.range_eq_range'] at hpass
  simp [compact, hpass, partway, packed]

/-! ## Reducing a window -/

/-- The slots with a phrase in the first slot of a window, and the others emptied. -/
def replaceWindow
    (slots : List (Option Symbol))
    (start width : Nat)
    (lhs : Nonterminal) : List (Option Symbol) :=
  slots.take start
    ++ some (.nonterminal lhs) :: List.replicate (width - 1) none
    ++ slots.drop (start + width)

theorem length_replaceWindow
    {slots : List (Option Symbol)}
    {start width : Nat}
    (lhs : Nonterminal)
    (hwidth : 0 < width)
    (hroom : start + width ≤ slots.length) :
    (replaceWindow slots start width lhs).length = slots.length := by
  simp only [replaceWindow, List.length_append, List.length_take, List.length_cons,
    List.length_replicate, List.length_drop]
  omega

/-- Behind its overwritten first slot, a window with a slot can be emptied. -/
theorem clear?_set
    {slots : List (Option Symbol)}
    {start width : Nat}
    (lhs : Nonterminal)
    (hwidth : 0 < width)
    (hroom : start + width ≤ slots.length) :
    clear? (slots.set start (some (.nonterminal lhs))) (start + 1) (start + width)
      = some (replaceWindow slots start width lhs) := by
  have htake :
      (slots.set start (some (.nonterminal lhs))).take (start + 1)
        = slots.take start ++ [some (.nonterminal lhs)] := by
    rw [List.take_add_one, List.take_set_of_le (Nat.le_refl start),
      List.getElem?_set_self (by omega), Option.toList_some]
  have hdrop :
      (slots.set start (some (.nonterminal lhs))).drop (start + width)
        = slots.drop (start + width) :=
    List.drop_set_of_lt (by omega)
  have hcount : start + width - (start + 1) = width - 1 := by
    omega
  rw [clear?, if_pos, htake, hdrop, hcount, replaceWindow, List.append_assoc (slots.take start)]
  · rfl
  · simp only [List.length_set, Bool.and_eq_true, decide_eq_true_eq]
    omega

/-- Overwriting and emptying both succeed exactly if all slots of the window are there. -/
theorem reduce?_eq
    (stack : Stack)
    (start width : Nat)
    (lhs : Nonterminal) :
    stack.reduce? start width lhs
      = if 0 < width ∧ start + width ≤ stack.capacity then
          some (compact (replaceWindow stack.slots start width lhs))
        else
          none := by
  rw [capacity]
  by_cases hstart : start < stack.slots.length
  · have hfirst :
        overwrite? stack.slots start (.nonterminal lhs)
          = some (stack.slots.set start (some (.nonterminal lhs))) :=
      if_pos hstart
    rw [reduce?, hfirst, Option.bind_eq_bind, Option.bind_some]
    by_cases hfits : 0 < width ∧ start + width ≤ stack.slots.length
    · rw [if_pos hfits, clear?_set lhs hfits.1 hfits.2]
      rfl
    · -- Without a slot, the bounds of what is to be emptied are in the wrong order.
      rw [if_neg hfits, clear?, if_neg]
      · rfl
      · simp only [List.length_set, Bool.and_eq_true, decide_eq_true_eq]
        omega
  · -- A window whose first slot is missing reaches beyond the slots.
    have hfirst : overwrite? stack.slots start (.nonterminal lhs) = none :=
      if_neg hstart
    rw [if_neg (by omega), reduce?, hfirst]
    rfl

/-- The symbols of a packed stack are spliced where one of its windows is replaced. -/
theorem filterMap_replaceWindow
    (capacity : Nat)
    (symbols : List Symbol)
    (start width : Nat)
    (lhs : Nonterminal) :
    (replaceWindow (packed capacity symbols).slots start width lhs).filterMap id
      = symbols.take start ++ .nonterminal lhs :: symbols.drop (start + width) := by
  have hfront :
      ((packed capacity symbols).slots.take start).filterMap id = symbols.take start := by
    simp [packed, List.take_append, ← List.map_take]
  have hbehind :
      ((packed capacity symbols).slots.drop (start + width)).filterMap id
        = symbols.drop (start + width) := by
    simp [packed, List.drop_append, ← List.map_drop]
  rw [replaceWindow, List.filterMap_append, List.filterMap_append, hfront, hbehind]
  simp

/-- Reducing splices the symbols of a packed stack, and keeps it packed. -/
theorem reduce?_packed_eq
    {capacity : Nat}
    {symbols : List Symbol}
    (h : symbols.length ≤ capacity)
    (start width : Nat)
    (lhs : Nonterminal) :
    (packed capacity symbols).reduce? start width lhs
      = if 0 < width ∧ start + width ≤ capacity then
          some (packed capacity
            (symbols.take start ++ .nonterminal lhs :: symbols.drop (start + width)))
        else
          none := by
  have hslots : (packed capacity symbols).slots.length = capacity :=
    capacity_packed h
  rw [reduce?_eq, capacity_packed h]
  by_cases hfits : 0 < width ∧ start + width ≤ capacity
  · have hroom : start + width ≤ (packed capacity symbols).slots.length := by
      omega
    rw [if_pos hfits, if_pos hfits, compact_eq_packed, filterMap_replaceWindow,
      length_replaceWindow lhs hfits.1 hroom, hslots]
  · rw [if_neg hfits, if_neg hfits]

/-- What a window with room is spliced into has room. -/
theorem length_splice_le
    {capacity start width : Nat}
    {symbols : List Symbol}
    (s : Symbol)
    (h : symbols.length ≤ capacity)
    (hwidth : 0 < width)
    (hfits : start + width ≤ capacity) :
    (symbols.take start ++ s :: symbols.drop (start + width)).length ≤ capacity := by
  simp only [List.length_append, List.length_take, List.length_cons, List.length_drop]
  omega

/-- A window of taken slots becomes one slot, and the rest moves up. -/
theorem reduce?_packed
    (capacity : Nat)
    (before window behind : List Symbol)
    (lhs : Nonterminal)
    (hwindow : window ≠ [])
    (hroom : (before ++ window ++ behind).length ≤ capacity) :
    (packed capacity (before ++ window ++ behind)).reduce?
        before.length window.length lhs
      = some (packed capacity (before ++ .nonterminal lhs :: behind)) := by
  have hpos : 0 < window.length :=
    List.length_pos_iff.2 hwindow
  have hfits : before.length + window.length ≤ capacity := by
    simp only [List.length_append] at hroom
    omega
  have htake : (before ++ window ++ behind).take before.length = before := by
    rw [List.append_assoc]
    exact List.take_left
  have hdrop :
      (before ++ window ++ behind).drop (before.length + window.length) = behind :=
    List.drop_left' List.length_append
  rw [reduce?_packed_eq hroom, if_pos ⟨hpos, hfits⟩, htake, hdrop]

/-! ## Stacks in use -/

/-- Exactly the first slots are taken, as many as the stack counts. -/
def TakesFirst (stack : Stack) : Prop :=
  ∀ index, (∃ s, stack.slots[index]? = some (some s)) ↔ index < stack.size

/-- What comes from free slots, or from none, by pushing symbols and reducing windows. -/
inductive Reachable : Stack → Prop
  | withCapacity
      (capacity : Nat) :
      Reachable (withCapacity capacity)
  | default :
      Reachable default
  | push
      {stack : Stack}
      (h : Reachable stack)
      (s : Symbol) :
      Reachable (stack.push s)
  | reduce
      {stack next : Stack}
      {start width : Nat}
      {lhs : Nonterminal}
      (h : Reachable stack)
      (hreduce : stack.reduce? start width lhs = some next) :
      Reachable next

theorem takesFirst_packed
    (capacity : Nat)
    (symbols : List Symbol) :
    (packed capacity symbols).TakesFirst := by
  intro index
  by_cases hindex : index < symbols.length
  · have hslot : (packed capacity symbols).slots[index]? = some (some symbols[index]) := by
      rw [packed, List.getElem?_append_left (by simpa using hindex)]
      simp [hindex]
    exact iff_of_true ⟨symbols[index], hslot⟩ hindex
  · have hslot :
        (packed capacity symbols).slots[index]?
          = (List.replicate (capacity - symbols.length) none)[index - symbols.length]? := by
      rw [packed, List.getElem?_append_right (by simpa using hindex), List.length_map]
    refine iff_of_false ?_ hindex
    rintro ⟨s, hs⟩
    rw [hslot, List.getElem?_replicate] at hs
    split at hs <;> simp at hs

/-- Every stack in use is packed, whichever windows were reduced. -/
theorem Reachable.exists_packed
    {stack : Stack}
    (h : stack.Reachable) :
    ∃ capacity symbols, symbols.length ≤ capacity ∧ stack = packed capacity symbols := by
  induction h with
  | withCapacity capacity =>
      exact ⟨capacity, [], Nat.zero_le capacity, withCapacity_eq_packed capacity⟩
  | default =>
      exact ⟨0, [], Nat.le_refl 0, rfl⟩
  | push h s ih =>
      obtain ⟨capacity, symbols, hroom, rfl⟩ := ih
      by_cases hfree : symbols.length < capacity
      · refine ⟨capacity, symbols ++ [s], ?_, push_packed s hfree⟩
        rw [List.length_append, List.length_singleton]
        omega
      · obtain rfl : capacity = symbols.length := by
          omega
        exact ⟨symbols.length + 1, symbols ++ [s], by simp, push_packed_full symbols s⟩
  | @reduce _ _ start width lhs _ hreduce ih =>
      obtain ⟨capacity, symbols, hroom, rfl⟩ := ih
      rw [reduce?_packed_eq hroom, Option.ite_none_right_eq_some] at hreduce
      obtain ⟨⟨hwidth, hfits⟩, hnext⟩ := hreduce
      exact ⟨capacity, _, length_splice_le _ hroom hwidth hfits, (Option.some.inj hnext).symm⟩

/--
In every stack in use exactly the first slots are taken, and reducing a window
splices the symbols. There is no result exactly if the window has no slot or
reaches beyond the last one. Otherwise the slots stay as many as they were, the
phrase takes the place of the symbols in the window, or stands behind all
symbols if the window begins behind them, and again the first slots are taken.
-/
theorem reduction_splices_symbols
    {stack : Stack}
    (hreachable : stack.Reachable) :
    stack.TakesFirst ∧
      ∀ start width lhs,
        (stack.reduce? start width lhs = none
            ↔ width = 0 ∨ stack.capacity < start + width) ∧
          (0 < width → start + width ≤ stack.capacity →
            ∃ next, stack.reduce? start width lhs = some next ∧
              next.capacity = stack.capacity ∧
              next.symbols
                = stack.symbols.take start ++ [.nonterminal lhs]
                    ++ stack.symbols.drop (start + width) ∧
              (stack.size ≤ start → next.symbols = stack.symbols ++ [.nonterminal lhs]) ∧
              next.TakesFirst) := by
  obtain ⟨capacity, symbols, hroom, rfl⟩ := hreachable.exists_packed
  refine ⟨takesFirst_packed capacity symbols, fun start width lhs => ?_⟩
  rw [reduce?_packed_eq hroom, capacity_packed hroom, symbols_packed]
  refine ⟨?_, fun hwidth hfits => ?_⟩
  · simp only [ite_eq_right_iff, reduceCtorEq, imp_false]
    omega
  · refine ⟨_, if_pos ⟨hwidth, hfits⟩,
      capacity_packed (length_splice_le _ hroom hwidth hfits), ?_, ?_, takesFirst_packed _ _⟩
    · rw [symbols_packed, List.append_assoc, List.singleton_append]
    · intro hbeyond
      have hstart : symbols.length ≤ start := hbeyond
      rw [symbols_packed, List.take_of_length_le hstart, List.drop_eq_nil_of_le (by omega)]

/-- Two symbols in four slots, of which the second has taken the place of two. -/
def halfFull : Stack :=
  ⟨[some (.nonterminal .term), some (.nonterminal .expr), none, none], 2⟩

/--
Windows of it that reach into the free slots or lie in them can be reduced, and
one that reaches beyond them cannot.
-/
theorem halfFull_reduction_splices :
    halfFull.Reachable ∧
      halfFull.TakesFirst ∧
      (∃ next, halfFull.reduce? 1 3 .stmt = some next ∧
        next.capacity = 4 ∧
        next.symbols = [.nonterminal .term, .nonterminal .stmt] ∧
        next.TakesFirst) ∧
      (∃ next, halfFull.reduce? 3 1 .stmt = some next ∧
        next.symbols = halfFull.symbols ++ [.nonterminal .stmt]) ∧
      halfFull.reduce? 2 3 .stmt = none := by
  have hexpr :
      ((((withCapacity 4).push (.nonterminal .term)).push (.nonterminal .factor)).push
          (.nonterminal .term)).reduce? 1 2 .expr
        = some halfFull := by
    decide
  have hreachable : halfFull.Reachable :=
    .reduce ((((Reachable.withCapacity 4).push _).push _).push _) hexpr
  obtain ⟨hfirst, hreduce⟩ := reduction_splices_symbols hreachable
  obtain ⟨inner, hinner, hcapacity, hspliced, -, htakes⟩ :=
    (hreduce 1 3 .stmt).2 (by decide) (by decide)
  obtain ⟨outer, houter, -, -, happended, -⟩ :=
    (hreduce 3 1 .stmt).2 (by decide) (by decide)
  exact ⟨hreachable, hfirst, ⟨inner, hinner, hcapacity, hspliced, htakes⟩,
    ⟨outer, houter, happended (by decide)⟩, (hreduce 2 3 .stmt).1.2 (by decide)⟩

end Stack
end CometLang
