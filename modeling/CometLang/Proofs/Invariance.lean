import CometLang.Proofs.Meaning

/-!
# Invariants of changes

Something that only reads gives a result or a fault, and something is known of
either. A change of the world upholds an invariant if the world has it
afterwards however the change ends; along with that, something is known of its
result and of its fault.

An invariant is carried from step to step: what a sequence, a branch or a loop
does is put together from what its parts do.
-/

namespace CometLang

/-- The result is as it should be, or its fault may be blamed. -/
def Yields
    {α : Type}
    (fine : α → Prop)
    (blame : Fault → Prop) :
    Except Fault α → Prop
  | .ok a => fine a
  | .error fault => blame fault

namespace Yields

variable {α β : Type}
variable {blame : Fault → Prop}

theorem bind
    {fine : α → Prop}
    {fine' : β → Prop}
    {result : Except Fault α}
    {next : α → Except Fault β}
    (h : Yields fine blame result)
    (hnext : ∀ a, fine a → Yields fine' blame (next a)) :
    Yields fine' blame (result >>= next) := by
  cases result with
  | ok a =>
      exact hnext a h
  | error fault =>
      exact h

theorem weaken
    {fine fine' : α → Prop}
    {result : Except Fault α}
    (h : Yields fine blame result)
    (hfine : ∀ a, fine a → fine' a) :
    Yields fine' blame result := by
  cases result with
  | ok a =>
      exact hfine a h
  | error fault =>
      exact h

/-- What is known of every result is known of all of them. -/
theorem mapM
    (fine : β → Prop)
    {f : α → Except Fault β}
    {as : List α}
    (h : ∀ a ∈ as, Yields fine blame (f a)) :
    Yields (fun bs => ∀ b ∈ bs, fine b) blame (as.mapM f) := by
  induction as with
  | nil =>
      exact List.forall_mem_nil _
  | cons a as ih =>
      rw [List.forall_mem_cons] at h
      rw [List.mapM_cons]
      refine h.1.bind fun b hb => ?_
      exact (ih h.2).bind fun bs hbs => List.forall_mem_cons.2 ⟨hb, hbs⟩

end Yields

namespace Change

/-- The world is as it was required, and the result or the fault is as it should be. -/
def Ends
    {α : Type}
    (keeps : World → Prop)
    (blame : Fault → Prop)
    (fine : α → Prop) :
    EStateM.Result Fault World α → Prop
  | .ok a w => keeps w ∧ fine a
  | .error fault w => keeps w ∧ blame fault

/-- The change keeps the world as it is required, and ends as it should. -/
def Upholds
    {α : Type}
    (keeps : World → Prop)
    (blame : Fault → Prop)
    (change : Change α)
    (fine : α → Prop) : Prop :=
  ∀ w, keeps w → Ends keeps blame fine (change w)

namespace Upholds

variable {α β : Type}
variable {keeps : World → Prop}
variable {blame : Fault → Prop}
variable {fine : α → Prop}
variable {fine' : β → Prop}

theorem pure
    {a : α}
    (h : fine a) :
    Upholds keeps blame (Pure.pure a) fine := by
  intro w hw
  exact ⟨hw, h⟩

theorem throw
    {fault : Fault}
    (h : blame fault) :
    Upholds keeps blame (MonadExcept.throw fault) fine := by
  intro w hw
  exact ⟨hw, h⟩

theorem bind
    {change : Change α}
    {next : α → Change β}
    (h : Upholds keeps blame change fine)
    (hnext : ∀ a, fine a → Upholds keeps blame (next a) fine') :
    Upholds keeps blame (change >>= next) fine' := by
  intro w hw
  have hchange := h w hw
  change Ends keeps blame fine' (EStateM.bind change next w)
  rw [EStateM.bind]
  cases hend : change w with
  | ok a w' =>
      rw [hend] at hchange
      exact hnext a hchange.2 w' hchange.1
  | error fault w' =>
      rw [hend] at hchange
      exact hchange

theorem look
    {read : List Frame → Except Fault α}
    (h : ∀ w, keeps w → Yields fine blame (read w.frames)) :
    Upholds keeps blame (Change.look read) fine := by
  intro w hw
  have hread := h w hw
  rw [Change.look]
  cases hresult : read w.frames with
  | ok a =>
      rw [hresult] at hread
      exact ⟨hw, hread⟩
  | error fault =>
      rw [hresult] at hread
      exact ⟨hw, hread⟩

theorem inBlock
    {body : Change Unit}
    (hopened : ∀ w, keeps w → keeps (opened w))
    (hclosed : ∀ w, keeps w → keeps (closed w))
    (h : Upholds keeps blame body fun _ => True) :
    Upholds keeps blame (Change.inBlock body) fun _ => True := by
  intro w hw
  have hbody := h _ (hopened w hw)
  rw [Change.inBlock]
  cases hend : body (opened w) with
  | ok a w' =>
      rw [hend] at hbody
      exact ⟨hclosed w' hbody.1, trivial⟩
  | error fault w' =>
      rw [hend] at hbody
      exact ⟨hclosed w' hbody.1, hbody.2⟩

/-- One of two things is done, whatever the guard says. -/
theorem branch
    {guard : Change Bool}
    {change change' : Change α}
    (hguard : Upholds keeps blame guard fun _ => True)
    (h : Upholds keeps blame change fine)
    (h' : Upholds keeps blame change' fine) :
    Upholds keeps blame
      (do
        if ← guard then
          change
        else
          change')
      fine := by
  refine hguard.bind fun holds _ => ?_
  cases holds with
  | true =>
      exact h
  | false =>
      exact h'

section Loops

variable {excess : Fault}
variable {guard : Change Bool}
variable {body : Change Unit}
variable (hexcess : blame excess)
variable (hguard : Upholds keeps blame guard fun _ => True)
variable (hbody : Upholds keeps blame body fun _ => True)

include hexcess hguard hbody

theorem whileHolds
    (count : Nat) :
    Upholds keeps blame (Change.whileHolds excess guard body count) fun _ => True := by
  induction count with
  | zero =>
      exact hguard.branch (throw hexcess) (pure trivial)
  | succ count ih =>
      exact hguard.branch (hbody.bind fun _ _ => ih) (pure trivial)

theorem untilFails
    (count : Nat) :
    Upholds keeps blame (Change.untilFails excess guard body count) fun _ => True := by
  induction count with
  | zero =>
      exact throw hexcess
  | succ count ih =>
      exact hbody.bind fun _ _ => hguard.branch ih (pure trivial)

end Loops

end Upholds
end Change
end CometLang
