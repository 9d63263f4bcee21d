import CometLang.Proofs.Discipline

/-!
# Loops and their rounds

A round of a loop is its body, run in a frame of its own. Whatever the guard says,
there are the machines after no round, after one round and so on, for as long as
the rounds end well. A loop goes along these machines. It stops where its guard
does not hold, and it fails where its guard or a round fails. If neither happens,
it fails when it has done as many rounds as it may and its guard still holds.

A loop that tests its guard first looks at it after no round for the first time,
one that tests it last looks at it after one round. Nothing else sets the two
apart: what is said of rounds and guards here is said of both.

Since every loop is stopped by its limit, the limit and the tree bound how many
bodies are run in all, whatever the input is.
-/

namespace CometLang
namespace Machine

open Action Evaluation

/-- The machine after so many rounds of a body, if all of them end well. -/
def rounds?
    (body : Action Unit)
    (m : Machine) :
    Nat → Option Machine
  | 0 => some m
  | k + 1 =>
      match rounds? body m k with
      | none => none
      | some s =>
          match inFrame body s with
          | .ok () s' => some s'
          | .error _ _ => none

theorem rounds?_succ_eq_some
    {body : Action Unit}
    {m s' : Machine}
    {k : Nat}
    (h : rounds? body m (k + 1) = some s') :
    ∃ s, rounds? body m k = some s ∧ inFrame body s = .ok () s' := by
  rw [rounds?] at h
  cases hs : rounds? body m k with
  | none =>
      rw [hs] at h
      cases h
  | some s =>
      rw [hs] at h
      dsimp only at h
      cases hround : inFrame body s with
      | ok _ after =>
          rw [hround] at h
          cases h
          exact ⟨s, rfl, hround⟩
      | error fault after =>
          rw [hround] at h
          cases h

theorem rounds?_succ_of_ok
    {body : Action Unit}
    {m s s' : Machine}
    {k : Nat}
    (hs : rounds? body m k = some s)
    (hround : inFrame body s = .ok () s') :
    rounds? body m (k + 1) = some s' := by
  simp only [rounds?, hs, hround]

/-- So many rounds are reached through every smaller number of them. -/
theorem exists_rounds?_of_le
    {body : Action Unit}
    {m s : Machine}
    {j k : Nat}
    (hs : rounds? body m k = some s)
    (hj : j ≤ k) :
    ∃ s', rounds? body m j = some s' := by
  induction k generalizing s with
  | zero =>
      obtain rfl : j = 0 := by omega
      exact ⟨s, hs⟩
  | succ k ih =>
      rcases Nat.eq_or_lt_of_le hj with rfl | hlt
      · exact ⟨s, hs⟩
      · obtain ⟨before, hbefore, -⟩ := rounds?_succ_eq_some hs
        exact ih hbefore (by omega)

/-! ## Ways in which a loop ends -/

/-- What a loop consists of. -/
structure Loop where
  guard : Tree
  body : Action Unit
  /-- How many rounds are done before the guard is looked at for the first time. -/
  first : Nat
  /-- How many rounds may be done. -/
  limit : Nat

namespace Loop

/-- Wherever the guard is looked at after fewer than `k` rounds, it holds. -/
def HoldsBefore
    (loop : Loop)
    (m : Machine)
    (k : Nat) : Prop :=
  ∀ i, loop.first ≤ i → i < k →
    ∃ s, rounds? loop.body m i = some s ∧ condition loop.guard s.scopes = .ok true

/-- After `k` rounds the guard does not hold, for the first time. -/
structure Finishes
    (loop : Loop)
    (m : Machine)
    (k : Nat)
    (s : Machine) : Prop where
  first_le : loop.first ≤ k
  le_limit : k ≤ loop.limit
  reached : rounds? loop.body m k = some s
  held : loop.HoldsBefore m k
  stops : condition loop.guard s.scopes = .ok false

/-- All the rounds that may be done are done, and the guard still holds. -/
structure Exceeds
    (loop : Loop)
    (m s : Machine) : Prop where
  reached : rounds? loop.body m loop.limit = some s
  held : loop.HoldsBefore m (loop.limit + 1)

/-- The guard or a round fails, and nothing has stopped the loop before. -/
inductive Breaks
    (loop : Loop)
    (m : Machine) :
    Fault → Machine → Prop
  | guard
      {k : Nat}
      {s : Machine}
      {fault : Fault}
      (hfirst : loop.first ≤ k)
      (hlimit : k ≤ loop.limit)
      (hs : rounds? loop.body m k = some s)
      (hheld : loop.HoldsBefore m k)
      (hguard : condition loop.guard s.scopes = .error fault) :
      Breaks loop m fault s
  | round
      {k : Nat}
      {s m' : Machine}
      {fault : Fault}
      (hlimit : k < loop.limit)
      (hs : rounds? loop.body m k = some s)
      (hheld : loop.HoldsBefore m (k + 1))
      (hround : inFrame loop.body s = .error fault m') :
      Breaks loop m fault m'

variable {loop : Loop} {m s : Machine} {k : Nat}

theorem HoldsBefore.mono
    {j : Nat}
    (h : loop.HoldsBefore m k)
    (hj : j ≤ k) :
    loop.HoldsBefore m j :=
  fun i hfirst hi => h i hfirst (by omega)

theorem HoldsBefore.guard_eq
    {i : Nat}
    (h : loop.HoldsBefore m k)
    (hfirst : loop.first ≤ i)
    (hi : i < k)
    (hs : rounds? loop.body m i = some s) :
    condition loop.guard s.scopes = .ok true := by
  obtain ⟨s', hs', hguard⟩ := h i hfirst hi
  cases hs.symm.trans hs'
  exact hguard

theorem HoldsBefore.succ
    (h : loop.HoldsBefore m k)
    (hs : rounds? loop.body m k = some s)
    (hguard : loop.first ≤ k → condition loop.guard s.scopes = .ok true) :
    loop.HoldsBefore m (k + 1) := by
  intro i hfirst hi
  rcases Nat.lt_succ_iff_lt_or_eq.1 hi with hlt | rfl
  · exact h i hfirst hlt
  · exact ⟨s, hs, hguard hfirst⟩

/-- A look at the guard ends the loop, or the guard holds. -/
theorem finishes_or_breaks_or_held
    (hlimit : k ≤ loop.limit)
    (hs : rounds? loop.body m k = some s)
    (hheld : loop.HoldsBefore m k) :
    loop.Finishes m k s ∨ (∃ fault, loop.Breaks m fault s) ∨ loop.HoldsBefore m (k + 1) := by
  by_cases hfirst : loop.first ≤ k
  · cases hguard : condition loop.guard s.scopes with
    | error fault =>
        exact .inr (.inl ⟨fault, .guard hfirst hlimit hs hheld hguard⟩)
    | ok truth =>
        cases truth with
        | true =>
            exact .inr (.inr (hheld.succ hs fun _ => hguard))
        | false =>
            exact .inl ⟨hfirst, hlimit, hs, hheld, hguard⟩
  · exact .inr (.inr (hheld.succ hs fun hle => absurd hle hfirst))

/-- By induction on the number of rounds: it is reached, or the loop has ended before. -/
theorem finishes_or_breaks_or_reached
    (loop : Loop)
    (m : Machine)
    (k : Nat)
    (hlimit : k ≤ loop.limit) :
    (∃ j s, loop.Finishes m j s) ∨ (∃ fault m', loop.Breaks m fault m') ∨
      ∃ s, rounds? loop.body m k = some s ∧ loop.HoldsBefore m k := by
  induction k with
  | zero =>
      exact .inr (.inr ⟨m, rfl, fun i _ hi => absurd hi (by omega)⟩)
  | succ k ih =>
      rcases ih (by omega) with hfinishes | hbreaks | ⟨s, hs, hheld⟩
      · exact .inl hfinishes
      · exact .inr (.inl hbreaks)
      -- The guard is looked at, if it is time for that, and then a round is done.
      rcases finishes_or_breaks_or_held (by omega) hs hheld with
        hfinishes | ⟨fault, hbreaks⟩ | hheld'
      · exact .inl ⟨k, s, hfinishes⟩
      · exact .inr (.inl ⟨fault, s, hbreaks⟩)
      cases hround : inFrame loop.body s with
      | ok _ s' =>
          exact .inr (.inr ⟨s', rounds?_succ_of_ok hs hround, hheld'⟩)
      | error fault m' =>
          exact .inr (.inl ⟨fault, m', .round hlimit hs hheld' hround⟩)

/-- A loop finishes, breaks or exceeds its limit. -/
theorem finishes_or_breaks_or_exceeds
    (loop : Loop)
    (m : Machine) :
    (∃ k s, loop.Finishes m k s) ∨ (∃ fault m', loop.Breaks m fault m') ∨
      ∃ s, loop.Exceeds m s := by
  rcases finishes_or_breaks_or_reached loop m loop.limit (Nat.le_refl _) with
    hfinishes | hbreaks | ⟨s, hs, hheld⟩
  · exact .inl hfinishes
  · exact .inr (.inl hbreaks)
  rcases finishes_or_breaks_or_held (Nat.le_refl _) hs hheld with
    hfinishes | ⟨fault, hbreaks⟩ | hheld'
  · exact .inl ⟨loop.limit, s, hfinishes⟩
  · exact .inr (.inl ⟨fault, s, hbreaks⟩)
  · exact .inr (.inr ⟨s, hs, hheld'⟩)

/-- A loop that exceeds its limit has met no other fault. -/
theorem Exceeds.not_breaks
    {m' : Machine}
    {fault : Fault}
    (h : loop.Exceeds m s) :
    ¬ loop.Breaks m fault m' := by
  intro hbreaks
  cases hbreaks with
  | guard hfirst hlimit hs _ hguard =>
      rw [h.held.guard_eq hfirst (by omega) hs] at hguard
      cases hguard
  | @round k _ _ _ hlimit hs _ hround =>
      -- All rounds have ended well, and so has this one.
      obtain ⟨s', hs'⟩ := exists_rounds?_of_le h.reached (show k + 1 ≤ loop.limit by omega)
      obtain ⟨before, hbefore, hok⟩ := rounds?_succ_eq_some hs'
      cases hs.symm.trans hbefore
      rw [hround] at hok
      cases hok

/-! ## Both kinds of loop do so -/

/-- The action ends as the loop does, with the number of rounds that are left. -/
structure Performs
    (loop : Loop)
    (fault : Fault)
    (action : Action Nat)
    (m : Machine) : Prop where
  finishes : ∀ k s, loop.Finishes m k s → action m = .ok (loop.limit - k) s
  exceeds : ∀ s, loop.Exceeds m s → action m = .error fault s
  breaks : ∀ other m', loop.Breaks m other m' → action m = .error other m'

end Loop

section

variable {fault : Fault} {guard : Tree} {body : Action Unit} {m s : Machine}

theorem holds_bind_of_ok
    {α : Type}
    {truth : Bool}
    (h : condition guard s.scopes = .ok truth)
    (next : Bool → Action α) :
    (holds guard >>= next) s = next truth s := by
  refine bind_of_ok ?_
  rw [holds, ofScopes, h]

theorem holds_bind_of_error
    {α : Type}
    (h : condition guard s.scopes = .error fault)
    (next : Bool → Action α) :
    (holds guard >>= next) s = .error fault s := by
  refine bind_of_error ?_
  rw [holds, ofScopes, h]

/-- While the guard holds, a loop that tests it first goes from round to round. -/
theorem repeatWhile_of_rounds
    {limit k : Nat}
    (left : Nat)
    (hs : rounds? body m k = some s)
    (hheld : Loop.HoldsBefore ⟨guard, body, 0, limit⟩ m k) :
    repeatWhile fault (holds guard) body (k + left) m
      = repeatWhile fault (holds guard) body left s := by
  induction k generalizing s left with
  | zero =>
      cases hs
      rw [Nat.zero_add]
  | succ k ih =>
      -- The loop comes to the machine before the last of the rounds, with one more left.
      obtain ⟨before, hbefore, hround⟩ := rounds?_succ_eq_some hs
      rw [Nat.succ_add_eq_add_succ, ih (left + 1) hbefore (hheld.mono (by omega)), repeatWhile,
        holds_bind_of_ok (hheld.guard_eq (Nat.zero_le k) (by omega) hbefore)]
      exact bind_of_ok hround

/-- While the guard holds, a loop that tests it last goes from round to round. -/
theorem repeatUntil_of_rounds
    {limit k : Nat}
    (left : Nat)
    (hs : rounds? body m k = some s)
    (hheld : Loop.HoldsBefore ⟨guard, body, 1, limit⟩ m (k + 1)) :
    repeatUntil fault (holds guard) body (k + left) m
      = repeatUntil fault (holds guard) body left s := by
  induction k generalizing s left with
  | zero =>
      cases hs
      rw [Nat.zero_add]
  | succ k ih =>
      obtain ⟨before, hbefore, hround⟩ := rounds?_succ_eq_some hs
      rw [Nat.succ_add_eq_add_succ, ih (left + 1) hbefore (hheld.mono (by omega)), repeatUntil,
        bind_of_ok hround,
        holds_bind_of_ok (hheld.guard_eq (Nat.succ_le_succ (Nat.zero_le k)) (by omega) hs)]
      rfl

/-- After a round, a loop that tests its guard last looks at it. -/
theorem repeatUntil_at_guard
    {limit k : Nat}
    (left : Nat)
    (hfirst : 1 ≤ k)
    (hs : rounds? body m k = some s)
    (hheld : Loop.HoldsBefore ⟨guard, body, 1, limit⟩ m k) :
    repeatUntil fault (holds guard) body (k + left) m
      = (do
          if ← holds guard then
            repeatUntil fault (holds guard) body left
          else
            return left) s := by
  obtain ⟨k, rfl⟩ := Nat.exists_eq_add_of_le' hfirst
  obtain ⟨before, hbefore, hround⟩ := rounds?_succ_eq_some hs
  rw [Nat.succ_add_eq_add_succ, repeatUntil_of_rounds (left + 1) hbefore hheld, repeatUntil]
  exact bind_of_ok hround

variable (fault guard body m)

theorem performs_repeatWhile
    (limit : Nat) :
    Loop.Performs ⟨guard, body, 0, limit⟩ fault
      (repeatWhile fault (holds guard) body limit) m where
  finishes := by
    rintro k s ⟨-, hlimit, hs, hheld, hguard⟩
    obtain ⟨left, rfl⟩ := Nat.exists_eq_add_of_le hlimit
    rw [repeatWhile_of_rounds left hs hheld, Nat.add_sub_cancel_left]
    cases left with
    | zero =>
        exact holds_bind_of_ok hguard _
    | succ left =>
        exact holds_bind_of_ok hguard _
  exceeds := by
    rintro s ⟨hs, hheld⟩
    change repeatWhile fault (holds guard) body (limit + 0) m = .error fault s
    rw [repeatWhile_of_rounds 0 hs (hheld.mono (Nat.le_succ limit))]
    exact holds_bind_of_ok (hheld.guard_eq (Nat.zero_le limit) (Nat.lt_succ_self limit) hs) _
  breaks := by
    intro other m' hbreaks
    cases hbreaks with
    | guard _ hlimit hs hheld hguard =>
        obtain ⟨left, rfl⟩ := Nat.exists_eq_add_of_le hlimit
        rw [repeatWhile_of_rounds left hs hheld]
        cases left with
        | zero =>
            exact holds_bind_of_error hguard _
        | succ left =>
            exact holds_bind_of_error hguard _
    | @round k s _ _ hlimit hs hheld hround =>
        obtain ⟨left, rfl⟩ := Nat.exists_eq_add_of_lt hlimit
        rw [Nat.add_assoc, repeatWhile_of_rounds (left + 1) hs (hheld.mono (Nat.le_succ k)),
          repeatWhile,
          holds_bind_of_ok (hheld.guard_eq (Nat.zero_le k) (Nat.lt_succ_self k) hs)]
        exact bind_of_error hround

theorem performs_repeatUntil
    (limit : Nat) :
    Loop.Performs ⟨guard, body, 1, limit⟩ fault
      (repeatUntil fault (holds guard) body limit) m where
  finishes := by
    rintro k s ⟨hfirst, hlimit, hs, hheld, hguard⟩
    obtain ⟨left, rfl⟩ := Nat.exists_eq_add_of_le hlimit
    rw [repeatUntil_at_guard left hfirst hs hheld, Nat.add_sub_cancel_left]
    exact holds_bind_of_ok hguard _
  exceeds := by
    rintro s ⟨hs, hheld⟩
    change repeatUntil fault (holds guard) body (limit + 0) m = .error fault s
    rw [repeatUntil_of_rounds 0 hs hheld]
    rfl
  breaks := by
    intro other m' hbreaks
    cases hbreaks with
    | guard hfirst hlimit hs hheld hguard =>
        obtain ⟨left, rfl⟩ := Nat.exists_eq_add_of_le hlimit
        rw [repeatUntil_at_guard left hfirst hs hheld]
        exact holds_bind_of_error hguard _
    | @round k s _ _ hlimit hs hheld hround =>
        obtain ⟨left, rfl⟩ := Nat.exists_eq_add_of_lt hlimit
        rw [Nat.add_assoc, repeatUntil_of_rounds (left + 1) hs hheld, repeatUntil]
        exact bind_of_error hround

end

/-! ## Whole loops -/

/--
The action ends well if and only if the loop finishes, and then it tells the number
of rounds. It fails if and only if the loop exceeds its limit, with the fault for
that, or breaks, with the fault that it breaks with; and it never does both.
-/
structure Loop.Accounts
    (loop : Loop)
    (event : Nat → Event)
    (exceeded : Fault)
    (action : Action Unit)
    (m : Machine) : Prop where
  ok_iff : ∀ m', action m = .ok () m' ↔ ∃ k s, loop.Finishes m k s ∧ m' = s.note (event k)
  error_iff :
    ∀ fault m', action m = .error fault m' ↔
      loop.Exceeds m m' ∧ fault = exceeded ∨ loop.Breaks m fault m'
  exclusive : ∀ s fault m', loop.Exceeds m s → ¬ loop.Breaks m fault m'

theorem Loop.Performs.accounts
    {loop : Loop}
    {exceeded : Fault}
    {action : Action Nat}
    {m : Machine}
    (h : loop.Performs exceeded action m)
    (event : Nat → Event) :
    loop.Accounts event exceeded
      (do
        let left ← action
        Action.note (event (loop.limit - left))) m := by
  have hok {k : Nat} {s : Machine} (hfinishes : loop.Finishes m k s) :
      (do
        let left ← action
        Action.note (event (loop.limit - left))) m = .ok () (s.note (event k)) := by
    rw [bind_of_ok (h.finishes k s hfinishes), Nat.sub_sub_self hfinishes.le_limit]
    rfl
  refine ⟨fun m' => ⟨fun hend => ?_, ?_⟩, fun fault m' => ⟨fun hend => ?_, ?_⟩, ?_⟩
  · rcases loop.finishes_or_breaks_or_exceeds m with
      ⟨k, s, hfinishes⟩ | ⟨fault, s, hbreaks⟩ | ⟨s, hexceeds⟩
    · rw [hok hfinishes] at hend
      cases hend
      exact ⟨k, s, hfinishes, rfl⟩
    · rw [bind_of_error (h.breaks fault s hbreaks)] at hend
      cases hend
    · rw [bind_of_error (h.exceeds s hexceeds)] at hend
      cases hend
  · rintro ⟨k, s, hfinishes, rfl⟩
    exact hok hfinishes
  · rcases loop.finishes_or_breaks_or_exceeds m with
      ⟨k, s, hfinishes⟩ | ⟨other, s, hbreaks⟩ | ⟨s, hexceeds⟩
    · rw [hok hfinishes] at hend
      cases hend
    · rw [bind_of_error (h.breaks other s hbreaks)] at hend
      cases hend
      exact .inr hbreaks
    · rw [bind_of_error (h.exceeds s hexceeds)] at hend
      cases hend
      exact .inl ⟨hexceeds, rfl⟩
  · rintro (⟨hexceeds, rfl⟩ | hbreaks)
    · exact bind_of_error (h.exceeds m' hexceeds)
    · exact bind_of_error (h.breaks fault m' hbreaks)
  · exact fun s fault m' hexceeds => hexceeds.not_breaks

theorem isForm_node_iff
    {label : Label}
    {children : List Tree}
    {form : Nonterminal} :
    (Tree.node label children).isForm form = true ↔ label = .nonterminal form := by
  cases label <;> simp [Tree.isForm, Tree.form?, Tree.label, Label.form?]

/-- The body of a loop is what its first block holds. -/
theorem runBody_eq_runAll
    {settings : Settings}
    {trees : List Tree}
    {block : Tree}
    (h : trees.find? (·.isForm .stmt) = some block) :
    runBody settings trees = runAll settings block.children := by
  induction trees with
  | nil =>
      cases h
  | cons t rest ih =>
      obtain ⟨label, children⟩ := t
      rw [runBody]
      by_cases hform : label = .nonterminal .stmt
      · rw [List.find?_cons, isForm_node_iff.2 hform] at h
        cases h
        rw [if_pos hform]
        rfl
      · rw [List.find?_cons, Bool.eq_false_iff.2 (mt isForm_node_iff.1 hform)] at h
        rw [if_neg hform]
        exact ih h

theorem guardOf_eq_ok
    {t guard block : Tree}
    (hguard : t.child? .conditionalExp = some guard)
    (hblock : t.child? .stmt = some block) :
    guardOf t = .ok guard := by
  simp only [guardOf, partOf, hguard, hblock]
  rfl

/-! ## The frames that a run closes -/

/-- At most so many frames have been closed. -/
def ClosesAtMost
    (count : Nat)
    (m m' : Machine) : Prop :=
  m'.scopes.closed.length ≤ m.scopes.closed.length + count

section

variable {α β : Type} {settings : Settings}

theorem ClosesAtMost.mono
    {n count : Nat}
    {action : Action α}
    (h : action.Keeps (ClosesAtMost n))
    (hle : n ≤ count) :
    action.Keeps (ClosesAtMost count) := by
  intro m
  have hm := h m
  rw [ClosesAtMost] at hm ⊢
  omega

theorem ClosesAtMost.bind
    {n count : Nat}
    {action : Action α}
    {next : α → Action β}
    (h : action.Keeps (ClosesAtMost n))
    (hnext : ∀ a, (next a).Keeps (ClosesAtMost count)) :
    (action >>= next).Keeps (ClosesAtMost (n + count)) := by
  intro m
  have hm := h m
  rw [after_bind]
  cases hend : action m with
  | ok a between =>
      have hbetween := hnext a between
      rw [after_of_ok hend] at hm
      rw [ClosesAtMost] at hm hbetween ⊢
      dsimp only
      omega
  | error fault between =>
      rw [after_of_error hend] at hm
      rw [ClosesAtMost] at hm ⊢
      dsimp only
      omega

theorem length_closed_pop
    (s : Scopes) :
    s.pop.closed.length ≤ s.closed.length + 1 := by
  obtain ⟨frames, closed⟩ := s
  cases frames with
  | nil =>
      exact Nat.le_succ _
  | cons f outer =>
      exact Nat.le_refl _

/-- A frame that was opened is closed again, so that one more is closed. -/
theorem length_closed_of_evolve_push
    {s s' : Scopes}
    (h : s.push.Evolve s') :
    s.closed.length + 1 ≤ s'.pop.closed.length := by
  obtain ⟨hframes, hhistory⟩ := h
  have hlength := hhistory.length_le
  obtain ⟨frames', closed'⟩ := s'
  cases hframes with
  | cons _ _ houter =>
      simp only [Scopes.history, List.length_reverse] at hlength
      exact Nat.succ_le_succ hlength

theorem ClosesAtMost.inFrame
    {count : Nat}
    {body : Action Unit}
    (h : body.Keeps (ClosesAtMost count)) :
    (inFrame body).Keeps (ClosesAtMost (count + 1)) := by
  intro m
  have hbody : (body.after m.enter).scopes.closed.length ≤ m.scopes.closed.length + count :=
    h m.enter
  have hpop := length_closed_pop (body.after m.enter).scopes
  rw [after_inFrame, ClosesAtMost, scopes_leave]
  omega

theorem closed_of_declare
    {s s' : Scopes}
    {name value : String}
    {position : Position}
    (h : s.declare name value position = .ok s') :
    s'.closed = s.closed := by
  rw [Scopes.declare] at h
  split at h
  · cases h
    rfl
  · split at h
    · cases h
    · cases h
      rfl

theorem closed_of_assign
    {s s' : Scopes}
    {name value : String}
    {position : Position}
    (h : s.assign name value position = .ok s') :
    s'.closed = s.closed := by
  rw [Scopes.assign] at h
  split at h
  · cases h
    rfl
  · cases h

theorem noting_closesAtMost_zero : Noting (ClosesAtMost 0) where
  refl _ := Nat.le_refl _
  trans h h' := Nat.le_trans h' h
  note _ _ := Nat.le_refl _

/-- No step of a simple statement closes a frame. -/
theorem stepping_closesAtMost_zero
    (settings : Settings) :
    Stepping settings (ClosesAtMost 0) where
  toNoting := noting_closesAtMost_zero
  declare name value position m := by
    rw [after_bind]
    rcases declare_cases name value position m with ⟨fault, hend⟩ | ⟨scopes, log, hscopes, hend⟩
    · rw [hend]
      exact Nat.le_refl _
    · rw [hend]
      exact Nat.le_of_eq (congrArg List.length (closed_of_declare hscopes))
  assign name value position m := by
    rw [after_bind]
    rcases assign_cases name value position m with ⟨fault, hend⟩ | ⟨scopes, hscopes, hend⟩
    · rw [hend]
      exact Nat.le_refl _
    · rw [hend]
      exact Nat.le_of_eq (congrArg List.length (closed_of_assign hscopes))
  write text position m := by
    obtain ⟨written, hafter⟩ := after_write settings text position m
    rw [hafter]
    exact Nat.le_refl _
  flush position m := by
    rw [after_flush]
    exact Nat.le_refl _
  readLine position m := by
    rw [after_readLine]
    exact Nat.le_refl _

theorem ClosesAtMost.bind_of_none
    {count : Nat}
    {action : Action α}
    {next : α → Action β}
    (h : action.Keeps (ClosesAtMost 0))
    (hnext : ∀ a, (next a).Keeps (ClosesAtMost count)) :
    (action >>= next).Keeps (ClosesAtMost count) :=
  ClosesAtMost.mono (ClosesAtMost.bind h hnext) (Nat.le_of_eq (Nat.zero_add count))

theorem ClosesAtMost.bind_note
    {count : Nat}
    {action : Action α}
    {event : α → Event}
    (h : action.Keeps (ClosesAtMost count)) :
    Keeps (ClosesAtMost count) (do
      let a ← action
      Action.note (event a)) :=
  ClosesAtMost.bind h fun _ => noting_closesAtMost_zero.keeps_note _

theorem ClosesAtMost.ofExcept_bind
    {count : Nat}
    (result : Except Fault α)
    {next : α → Action β}
    (hnext : ∀ a, (next a).Keeps (ClosesAtMost count)) :
    (ofExcept result >>= next).Keeps (ClosesAtMost count) :=
  bind_of_none (noting_closesAtMost_zero.keeps_ofExcept result) hnext

theorem ClosesAtMost.guarded
    {count : Nat}
    {first second : Action α}
    (guard : Tree)
    (hfirst : first.Keeps (ClosesAtMost count))
    (hsecond : second.Keeps (ClosesAtMost count)) :
    Keeps (ClosesAtMost count) (do
      if ← holds guard then
        first
      else
        second) := by
  refine bind_of_none (noting_closesAtMost_zero.keeps_ofScopes _) fun truth => ?_
  cases truth with
  | true =>
      exact hfirst
  | false =>
      exact hsecond

/-- What closes no frame closes at most any number of them. -/
theorem ClosesAtMost.of_none
    {count : Nat}
    {action : Action α}
    (h : action.Keeps (ClosesAtMost 0)) :
    action.Keeps (ClosesAtMost count) :=
  mono h (Nat.zero_le count)

variable {body : Action Unit} {below : Nat}

/-- By induction on how often the body may still run. -/
theorem ClosesAtMost.repeatWhile
    (fault : Fault)
    (guard : Tree)
    (hbody : body.Keeps (ClosesAtMost below))
    (count : Nat) :
    (repeatWhile fault (holds guard) body count).Keeps (ClosesAtMost (count * (below + 1))) := by
  have hnone := noting_closesAtMost_zero
  induction count with
  | zero =>
      exact guarded guard (of_none (hnone.keeps_throw fault)) (of_none (hnone.keeps_pure 0))
  | succ count ih =>
      refine guarded guard ?_ (of_none (hnone.keeps_pure (count + 1)))
      rw [Nat.succ_mul, Nat.add_comm]
      exact ClosesAtMost.bind (ClosesAtMost.inFrame hbody) fun _ => ih

/-- By induction on how often the body may still run. -/
theorem ClosesAtMost.repeatUntil
    (fault : Fault)
    (guard : Tree)
    (hbody : body.Keeps (ClosesAtMost below))
    (count : Nat) :
    (repeatUntil fault (holds guard) body count).Keeps (ClosesAtMost (count * (below + 1))) := by
  have hnone := noting_closesAtMost_zero
  induction count with
  | zero =>
      exact of_none (hnone.keeps_throw fault)
  | succ count ih =>
      rw [Nat.succ_mul, Nat.add_comm]
      refine ClosesAtMost.bind (ClosesAtMost.inFrame hbody) fun _ => ?_
      exact guarded guard ih (of_none (hnone.keeps_pure count))

theorem ClosesAtMost.runPropel
    (t : Tree)
    (hbody : body.Keeps (ClosesAtMost below)) :
    (runPropel t body).Keeps (ClosesAtMost (below + 1)) := by
  rw [Machine.runPropel]
  cases t.child? .propelStmt with
  | none =>
      exact of_none (noting_closesAtMost_zero.keeps_pure ())
  | some branch =>
      exact ofExcept_bind _ fun _ => ClosesAtMost.inFrame hbody

/-- One branch of a cascade is run at most. -/
theorem ClosesAtMost.runOrbit
    {navigateBody propelBody : Action Unit}
    (t : Tree)
    (hbody : body.Keeps (ClosesAtMost below))
    (hnavigate : navigateBody.Keeps (ClosesAtMost below))
    (hpropel : propelBody.Keeps (ClosesAtMost below)) :
    (runOrbit t body navigateBody propelBody).Keeps (ClosesAtMost (below + 1)) := by
  refine ofExcept_bind _ fun guard => ?_
  refine guarded guard (ClosesAtMost.inFrame hbody) ?_
  cases t.child? .navigateStmt with
  | none =>
      exact ClosesAtMost.runPropel t hpropel
  | some branch =>
      refine ofExcept_bind _ fun guard => ?_
      exact guarded guard (ClosesAtMost.inFrame hnavigate) (ClosesAtMost.runPropel t hpropel)

end

end Machine

mutual

/-- How many bodies are run at most if no loop does more than `limit` rounds. -/
def Tree.bodies (limit : Nat) : Tree → Nat
  | .node label children =>
      match label with
      | .program => Tree.bodiesOfAll limit children + 1
      | .nonterminal .orbitStmt => Tree.bodiesOfAll limit children + 1
      | .nonterminal .whirlLoop => limit * (Tree.bodiesOfAll limit children + 1)
      | .nonterminal .launchWhirlLoop => limit * (Tree.bodiesOfAll limit children + 1)
      | _ => Tree.bodiesOfAll limit children

def Tree.bodiesOfAll (limit : Nat) : List Tree → Nat
  | [] => 0
  | t :: rest => Tree.bodies limit t + Tree.bodiesOfAll limit rest

end

namespace Machine

open Action

mutual

/-- By induction on the tree: a run closes no more frames than the tree has bodies. -/
theorem closesAtMost_run
    (settings : Settings) :
    ∀ t, (run settings t).Keeps (ClosesAtMost (t.bodies settings.maxIterations))
  | .node label children => by
      have hnone := stepping_closesAtMost_zero settings
      cases label with
      | program =>
          rw [run, Tree.bodies]
          exact ClosesAtMost.inFrame (closesAtMost_runAll settings children)
      | token token =>
          rw [run]
          exact .of_none (hnone.keeps_pure ())
      | nonterminal form =>
          cases form with
          | decStmt =>
              rw [run]
              exact .of_none (hnone.keeps_runDeclaration _)
          | assignStmt =>
              rw [run]
              exact .of_none (hnone.keeps_runAssignment _)
          | transmissionStmt =>
              rw [run]
              exact .of_none (hnone.keeps_runTransmission _)
          | receptionStmt =>
              rw [run]
              exact .of_none (hnone.keeps_runReception _)
          | arithExp =>
              rw [run]
              exact .of_none (hnone.keeps_runArithmetic _)
          | orbitStmt =>
              rw [run, Tree.bodies]
              exact .runOrbit _ (closesAtMost_runBody settings children)
                (closesAtMost_runBranch settings .navigateStmt (by decide) children)
                (closesAtMost_runBranch settings .propelStmt (by decide) children)
          | whirlLoop =>
              rw [run, Tree.bodies]
              refine .ofExcept_bind _ fun guard => ?_
              exact .bind_note (.repeatWhile _ guard (closesAtMost_runBody settings children) _)
          | launchWhirlLoop =>
              rw [run, Tree.bodies]
              refine .ofExcept_bind _ fun guard => ?_
              exact .bind_note (.repeatUntil _ guard (closesAtMost_runBody settings children) _)
          | _ =>
              rw [run, Tree.bodies]
              · exact closesAtMost_runAll settings children
              all_goals simp

theorem closesAtMost_runAll
    (settings : Settings) :
    ∀ trees,
      (runAll settings trees).Keeps
        (ClosesAtMost (Tree.bodiesOfAll settings.maxIterations trees))
  | [] => by
      rw [runAll]
      exact .of_none (noting_closesAtMost_zero.keeps_pure ())
  | t :: rest => by
      rw [runAll, Tree.bodiesOfAll]
      exact ClosesAtMost.bind (closesAtMost_run settings t)
        fun _ => closesAtMost_runAll settings rest

theorem closesAtMost_runBody
    (settings : Settings) :
    ∀ trees,
      (runBody settings trees).Keeps
        (ClosesAtMost (Tree.bodiesOfAll settings.maxIterations trees))
  | [] => by
      rw [runBody]
      exact .of_none (noting_closesAtMost_zero.keeps_pure ())
  | .node label children :: rest => by
      rw [runBody, Tree.bodiesOfAll]
      split
      · next hstmt =>
          subst hstmt
          rw [Tree.bodies]
          exact .mono (closesAtMost_runAll settings children) (Nat.le_add_right _ _)
          all_goals simp
      · exact .mono (closesAtMost_runBody settings rest) (Nat.le_add_left _ _)

theorem closesAtMost_runBranch
    (settings : Settings)
    (form : Nonterminal)
    (hform : form ≠ .whirlLoop ∧ form ≠ .launchWhirlLoop) :
    ∀ trees,
      (runBranch settings form trees).Keeps
        (ClosesAtMost (Tree.bodiesOfAll settings.maxIterations trees))
  | [] => by
      rw [runBranch]
      exact .of_none (noting_closesAtMost_zero.keeps_pure ())
  | .node label children :: rest => by
      rw [runBranch, Tree.bodiesOfAll]
      split
      · next hbranch =>
          have hle : Tree.bodiesOfAll settings.maxIterations children
              ≤ Tree.bodies settings.maxIterations (.node label children) := by
            subst hbranch
            cases form <;> simp_all [Tree.bodies]
          exact .mono (closesAtMost_runBody settings children) (by omega)
      · exact .mono (closesAtMost_runBranch settings form hform rest) (Nat.le_add_left _ _)

end

/-- Every round leaves a closed frame behind, its own. -/
theorem closed_of_rounds
    {settings : Settings}
    {trees : List Tree}
    {m s : Machine}
    {k : Nat}
    (hs : rounds? (runAll settings trees) m k = some s) :
    m.scopes.closed.length + k ≤ s.scopes.closed.length := by
  induction k generalizing s with
  | zero =>
      cases hs
      exact Nat.le_refl _
  | succ k ih =>
      obtain ⟨before, hbefore, hround⟩ := rounds?_succ_eq_some hs
      have hafter := after_of_ok hround
      rw [after_inFrame] at hafter
      have hbody : before.scopes.push.Evolve ((runAll settings trees).after before.enter).scopes :=
        (Evolve.lasting settings).keeps_runAll trees before.enter
      have hpop := length_closed_of_evolve_push hbody
      rw [← scopes_leave, hafter] at hpop
      have hk := ih hbefore
      omega

/--
Let a loop have a guard and a block. There are the machines after no round, after
one round and so on. The loop ends well just where it finds its guard false after
`k` rounds, and leaves the machine after `k` rounds behind. It fails at its limit
just where all the rounds that it may do are done and the guard holds all along;
else it fails with the first fault of its guard or of a round. A loop that tests
its guard last does not look at it before the first round, and does none at all if
it may do none. So every run of every tree comes to its end: the number of its
bodies is bounded by the tree and the limit.
-/
theorem loops_account_for_rounds
    (settings : Settings)
    (m : Machine) :
    (∀ t guard block,
      t.child? .conditionalExp = some guard → t.child? .stmt = some block →
        (t.form? = some .whirlLoop →
          Loop.Accounts ⟨guard, runAll settings block.children, 0, settings.maxIterations⟩
            .whirled ⟨.loopLimitExceeded settings.maxIterations, Evaluation.treePosition t⟩
            (run settings t) m) ∧
        (t.form? = some .launchWhirlLoop →
          Loop.Accounts ⟨guard, runAll settings block.children, 1, settings.maxIterations⟩
            .launched ⟨.loopLimitExceeded settings.maxIterations, Evaluation.treePosition t⟩
            (run settings t) m) ∧
        ∀ k s, rounds? (runAll settings block.children) m k = some s →
          m.scopes.closed.length + k ≤ s.scopes.closed.length) ∧
      ∀ tree,
        ((run settings tree).after m).scopes.closed.length
          ≤ m.scopes.closed.length + tree.bodies settings.maxIterations := by
  refine ⟨?_, fun tree => closesAtMost_run settings tree m⟩
  rintro ⟨label, children⟩ guard block hguard hblock
  have hbody : runBody settings children = runAll settings block.children :=
    runBody_eq_runAll hblock
  have hok {α : Type} (next : Tree → Action α) :
      (ofExcept (guardOf (.node label children)) >>= next) = next guard := by
    rw [guardOf_eq_ok hguard hblock, ofExcept_ok_bind]
  refine ⟨?_, ?_, fun k s => closed_of_rounds⟩
  · intro hform
    cases label <;> cases hform
    rw [run, runWhirl, hok, hbody]
    exact (performs_repeatWhile _ guard _ m settings.maxIterations).accounts .whirled
  · intro hform
    cases label <;> cases hform
    rw [run, runLaunch, hok, hbody]
    exact (performs_repeatUntil _ guard _ m settings.maxIterations).accounts .launched

/-- A phrase of one token. -/
def wordOf
    (form : Nonterminal)
    (kind : Kind)
    (text : String) : Tree :=
  .node (.nonterminal form) [.leaf ⟨kind, text, ⟨.unknown, .unknown⟩⟩]

/-- The guard `x < 2`. -/
def belowTwo : Tree :=
  .node (.nonterminal .conditionalExp)
    [.node (.nonterminal .relationalExp)
      [wordOf .identifier .identifier "x", wordOf .relationalOp .less "<",
        wordOf .cometLiteral .cometLiteral "2"]]

/-- The statement `x = x + 1;` -/
def countOn : Tree :=
  let factor (t : Tree) := .node (.nonterminal .term) [.node (.nonterminal .factor) [t]]
  .node (.nonterminal .assignStmt)
    [wordOf .identifier .identifier "x", .leaf ⟨.assignment, "=", ⟨.unknown, .unknown⟩⟩,
      .node (.nonterminal .arithExp)
        [.node (.nonterminal .arithExp) [factor (wordOf .identifier .identifier "x")],
          .leaf ⟨.plus, "+", ⟨.unknown, .unknown⟩⟩,
          factor (wordOf .cometLiteral .cometLiteral "1")]]

/-- A loop that counts up to two. -/
def countingUp (form : Nonterminal) : Tree :=
  .node (.nonterminal form) [belowTwo, .node (.nonterminal .stmt) [countOn]]

/-- One frame is open, and `x` is zero in it. -/
def atZero : Machine :=
  ⟨⟨[Table.empty.insert "x" "0"], []⟩, Table.empty, [], #[], 0, []⟩

/-- A guard that is evaluated after so many rounds is evaluated in a machine that is reached. -/
theorem exists_rounds?_of_condition
    {body : Action Unit}
    {guard : Tree}
    {m : Machine}
    {k : Nat}
    {truth : Bool}
    (h : ((rounds? body m k).bind fun s => (Evaluation.condition guard s.scopes).toOption) = some truth) :
    ∃ s, rounds? body m k = some s ∧ Evaluation.condition guard s.scopes = .ok truth := by
  obtain ⟨s, hs, htruth⟩ := Option.bind_eq_some_iff.1 h
  refine ⟨s, hs, ?_⟩
  cases hguard : Evaluation.condition guard s.scopes with
  | ok other =>
      rw [hguard] at htruth
      cases htruth
      rfl
  | error fault =>
      rw [hguard] at htruth
      cases htruth

/--
From zero on, either loop ends well after two rounds, and `x` is two then. If it
may do one round only, it is stopped when `x` is one; and a loop that tests its
guard last and may do none is stopped at once.
-/
theorem countingUp_accounts_for_rounds :
    ∃ once twice,
      rounds? (runAll {} [countOn]) atZero 1 = some once ∧
        once.scopes.lookup? "x" = some "1" ∧
        rounds? (runAll {} [countOn]) atZero 2 = some twice ∧
        twice.scopes.lookup? "x" = some "2" ∧ twice.scopes.closed.length = 2 ∧
        run {} (countingUp .whirlLoop) atZero = .ok () (twice.note (.whirled 2)) ∧
        run {} (countingUp .launchWhirlLoop) atZero = .ok () (twice.note (.launched 2)) ∧
        run { maxIterations := 1 } (countingUp .whirlLoop) atZero
          = .error ⟨.loopLimitExceeded 1, .unknown⟩ once ∧
        run { maxIterations := 1 } (countingUp .launchWhirlLoop) atZero
          = .error ⟨.loopLimitExceeded 1, .unknown⟩ once ∧
        run { maxIterations := 0 } (countingUp .launchWhirlLoop) atZero
          = .error ⟨.loopLimitExceeded 0, .unknown⟩ atZero := by
  -- The body is an assignment, which does the same under all settings.
  have hwhirl (settings : Settings) :
      Loop.Accounts ⟨belowTwo, runAll {} [countOn], 0, settings.maxIterations⟩
        .whirled ⟨.loopLimitExceeded settings.maxIterations, .unknown⟩
        (run settings (countingUp .whirlLoop)) atZero :=
    ((loops_account_for_rounds settings atZero).1 (countingUp .whirlLoop) belowTwo
      (.node (.nonterminal .stmt) [countOn]) rfl rfl).1 rfl
  have hlaunch (settings : Settings) :
      Loop.Accounts ⟨belowTwo, runAll {} [countOn], 1, settings.maxIterations⟩
        .launched ⟨.loopLimitExceeded settings.maxIterations, .unknown⟩
        (run settings (countingUp .launchWhirlLoop)) atZero :=
    ((loops_account_for_rounds settings atZero).1 (countingUp .launchWhirlLoop) belowTwo
      (.node (.nonterminal .stmt) [countOn]) rfl rfl).2.1 rfl
  have hheld (i : Nat) (hi : i < 2) :
      ∃ s, rounds? (runAll {} [countOn]) atZero i = some s ∧
        Evaluation.condition belowTwo s.scopes = .ok true :=
    match i, hi with
    | 0, _ => exists_rounds?_of_condition (by decide +kernel)
    | 1, _ => exists_rounds?_of_condition (by decide +kernel)
  obtain ⟨once, honce, -⟩ := hheld 1 (by decide)
  obtain ⟨twice, htwice, hstops⟩ : ∃ s, rounds? (runAll {} [countOn]) atZero 2 = some s ∧
      Evaluation.condition belowTwo s.scopes = .ok false :=
    exists_rounds?_of_condition (by decide +kernel)
  have hone : (rounds? (runAll {} [countOn]) atZero 1).bind (·.scopes.lookup? "x")
      = some "1" := by
    decide +kernel
  have htwo : (rounds? (runAll {} [countOn]) atZero 2).bind (·.scopes.lookup? "x")
      = some "2" := by
    decide +kernel
  have hclosed : (rounds? (runAll {} [countOn]) atZero 2).map (·.scopes.closed.length)
      = some 2 := by
    decide +kernel
  rw [honce] at hone
  rw [htwice] at htwo hclosed
  refine ⟨once, twice, honce, hone, htwice, htwo, Option.some.inj hclosed, ?_, ?_, ?_, ?_, ?_⟩
  · exact ((hwhirl {}).ok_iff _).2
      ⟨2, twice, ⟨by decide, by decide, htwice, fun i _ hi => hheld i hi, hstops⟩, rfl⟩
  · exact ((hlaunch {}).ok_iff _).2
      ⟨2, twice, ⟨by decide, by decide, htwice, fun i _ hi => hheld i hi, hstops⟩, rfl⟩
  · exact ((hwhirl { maxIterations := 1 }).error_iff _ _).2
      (.inl ⟨⟨honce, fun i _ hi => hheld i hi⟩, rfl⟩)
  · exact ((hlaunch { maxIterations := 1 }).error_iff _ _).2
      (.inl ⟨⟨honce, fun i _ hi => hheld i hi⟩, rfl⟩)
  · refine ((hlaunch { maxIterations := 0 }).error_iff _ _).2
      (.inl ⟨⟨rfl, fun i hfirst hi => ?_⟩, rfl⟩)
    exact absurd hi (Nat.not_lt.2 hfirst)

end Machine
end CometLang
