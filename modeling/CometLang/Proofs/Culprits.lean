import CometLang.Proofs.Adequacy
import CometLang.Proofs.GoodValues

/-!
# What is to blame for a fault

A run of a program that fails points at one of the pieces that spell the
program, and the cause of the fault tells what piece it is: the name that is
not declared, the sign of the division, the first word of the loop, an operand
that is no number, or the target of a reception. There is one exception, an
output that takes no more: nothing in the program is to blame for that when a
transmission writes to it.

Where an operand is to blame, what stands beside it tells how it was read. In an
arithmetic expression it was read as a whole number, in a comparison as a
number that can be compared. In the latter case its text is a good value, since
the world of a run stays sound.
-/

namespace CometLang

open Abstract

/-- A kind of the sort stands right before a place, or right behind it. -/
def Beside
    (sort : Kind → Bool)
    (before behind : List Kind) : Prop :=
  (∃ k ∈ before.getLast?, sort k = true) ∨ ∃ k ∈ behind.head?, sort k = true

/-- The kinds that stand behind the target of a reception. -/
def IsReception (behind : List Kind) : Prop :=
  [.assignment, .reception] <+: behind

/--
What the cause of a fault tells of the token that is to blame: of its kind, of
its value, and of the kinds that stand before it and behind it.
-/
inductive Culpable
    (good : String → Prop)
    (before : List Kind)
    (kind : Kind)
    (value? : Option String)
    (behind : List Kind) :
    Cause → Prop
  | undeclared
      {name : String}
      (hkind : kind = .identifier)
      (hvalue : value? = some name) :
      Culpable good before kind value? behind (.undeclared name)
  | alreadyDeclared
      {name : String}
      (hkind : kind = .identifier)
      (hvalue : value? = some name) :
      Culpable good before kind value? behind (.alreadyDeclared name)
  | division
      (hkind : kind = .slash) :
      Culpable good before kind value? behind .divisionByZero
  | excess
      {limit : Nat}
      (hkind : kind = .whirl ∨ kind = .launch) :
      Culpable good before kind value? behind (.loopLimitExceeded limit)
  | operand
      {text : String}
      (hkind : kind.isOperand = true)
      (hbeside : Beside Kind.isArithmetic before behind) :
      Culpable good before kind value? behind (.typeMismatch "a comet (integer)" text)
  | comparand
      {text : String}
      (hkind : kind.isOperand = true)
      (hbeside : Beside Kind.isRelational before behind)
      (hgood : good text)
      (hread : Numeral.Double.ofText? text = none) :
      Culpable good before kind value? behind (.typeMismatch "a comet (integer)" text)
  | target
      {cause : Cause}
      (hkind : kind = .identifier)
      (hbehind : IsReception behind)
      (hcause : (∃ text, cause = .typeMismatch "a comet (integer)" text) ∨
        cause = .inputExhausted ∨ ∃ message, cause = .io message) :
      Culpable good before kind value? behind cause

/-- The fault is blamed on one of the pieces, or on an output that takes no more. -/
inductive Blamed
    (good : String → Prop)
    (settings : Settings)
    (whole : List Piece)
    (fault : Fault) : Prop
  | piece
      {before behind : List Piece}
      {piece : Piece}
      (hwhole : whole = before ++ piece :: behind)
      (hposition : piece.position? = some fault.position)
      (hculpable : Culpable good (before.map Piece.kind) piece.kind piece.value?
        (behind.map Piece.kind) fault.cause)
  | output
      (hsink : ¬ settings.sink.TakesAll)
      (hfault : ∃ message, fault = ⟨.io message, .unknown⟩)

/-- What a program can set a name to is good, and so is what its literals write. -/
structure Writes
    (good : String → Prop)
    (whole : List Piece) : Prop where
  literal :
    ∀ piece ∈ whole, piece.kind = .cometLiteral → ∀ text ∈ piece.value?, good text
  total : ∀ n, good (Numeral.wholeText n)

section Places

variable {good : String → Prop}

/-- What stands beside a place does so too if more stands around it. -/
theorem Beside.extend
    {sort : Kind → Bool}
    {before behind : List Kind}
    (h : Beside sort before behind)
    (front back : List Kind) :
    Beside sort (front ++ before) (behind ++ back) := by
  rcases h with ⟨k, hk, hsort⟩ | ⟨k, hk, hsort⟩
  · exact .inl ⟨k, List.mem_getLast?_append_of_mem_getLast? hk, hsort⟩
  · exact .inr ⟨k, List.mem_head?_append_of_mem_head? hk, hsort⟩

theorem IsReception.extend
    {behind : List Kind}
    (h : IsReception behind)
    (back : List Kind) :
    IsReception (behind ++ back) :=
  h.trans (List.prefix_append _ _)

theorem Culpable.extend
    {before behind : List Kind}
    {kind : Kind}
    {value? : Option String}
    {cause : Cause}
    (h : Culpable good before kind value? behind cause)
    (front back : List Kind) :
    Culpable good (front ++ before) kind value? (behind ++ back) cause := by
  cases h with
  | undeclared hkind hvalue =>
      exact .undeclared hkind hvalue
  | alreadyDeclared hkind hvalue =>
      exact .alreadyDeclared hkind hvalue
  | division hkind =>
      exact .division hkind
  | excess hkind =>
      exact .excess hkind
  | operand hkind hbeside =>
      exact .operand hkind (hbeside.extend front back)
  | comparand hkind hbeside hgood hread =>
      exact .comparand hkind (hbeside.extend front back) hgood hread
  | target hkind hbehind hcause =>
      exact .target hkind (hbehind.extend back) hcause

/-- A piece that is to blame in a part of the program is to blame in the whole. -/
theorem Blamed.of_part
    {settings : Settings}
    {part whole : List Piece}
    {piece : Piece}
    {fault : Fault}
    (hpart : part <:+: whole)
    (before behind : List Piece)
    (heq : part = before ++ piece :: behind)
    (hposition : piece.position? = some fault.position)
    (hculpable : Culpable good (before.map Piece.kind) piece.kind piece.value?
      (behind.map Piece.kind) fault.cause) :
    Blamed good settings whole fault := by
  obtain ⟨front, back, rfl⟩ := hpart
  subst heq
  have hextended := hculpable.extend (front.map Piece.kind) (back.map Piece.kind)
  rw [← List.map_append, ← List.map_append] at hextended
  exact .piece (by simp) hposition hextended

end Places

/-! ## Expressions -/

namespace Abstract

theorem Operator.isArithmetic_kind
    (o : Operator) :
    o.piece.kind.isArithmetic = true := by
  cases o <;> rfl

theorem Comparator.isRelational_kind
    (c : Comparator) :
    c.kind.isRelational = true := by
  cases c <;> rfl

namespace Operand

theorem isOperand_kind
    (o : Operand) :
    o.piece.kind.isOperand = true := by
  cases o <;> rfl

theorem position?_piece
    (o : Operand) :
    o.piece.position? = some o.position := by
  cases o <;> rfl

end Operand

section Expressions

variable {good : String → Prop}
variable {settings : Settings}
variable {whole : List Piece}
variable {frames : List Frame}

namespace Name

variable {n : Name}

theorem blamed_undeclared
    (h : n.piece ∈ whole) :
    Blamed good settings whole ⟨.undeclared n.text, n.position⟩ := by
  obtain ⟨before, behind, heq⟩ := List.append_of_mem h
  exact .piece heq rfl (.undeclared rfl rfl)

theorem blamed_alreadyDeclared
    (h : n.piece ∈ whole) :
    Blamed good settings whole ⟨.alreadyDeclared n.text, n.position⟩ := by
  obtain ⟨before, behind, heq⟩ := List.append_of_mem h
  exact .piece heq rfl (.alreadyDeclared rfl rfl)

end Name

variable (hwrites : Writes good whole)
variable (hframes : ∀ frame ∈ frames, frame.Holds good)

include hwrites hframes

theorem Operand.yields_text
    {o : Operand}
    (ho : o.piece ∈ whole) :
    Yields good (Blamed good settings whole) (o.text frames) := by
  cases o with
  | name n =>
      exact n.yields_value hframes (Name.blamed_undeclared ho)
  | literal text position =>
      exact hwrites.literal _ ho rfl text rfl

/-- The operand is read as a number, or it is to blame if its text cannot be read so. -/
theorem Operand.yields_number
    {α : Type}
    {reader : String → Option α}
    {o : Operand}
    (ho : o.piece ∈ whole)
    (hmismatch : ∀ text, good text → reader text = none →
      Blamed good settings whole (notNumber text o.position)) :
    Yields (fun _ => True) (Blamed good settings whole) (o.number reader frames) := by
  refine (o.yields_text hwrites hframes ho).bind fun text hgood => ?_
  cases hread : reader text with
  | some value =>
      trivial
  | none =>
      exact hmismatch text hgood hread

namespace Arithmetic

omit hwrites hframes in
/-- Only a division can fail once the operands are read. -/
theorem yields_total
    {blame : Fault → Prop}
    (before : Int64 → Int64)
    (term : Int64)
    (operations : List (Operator × Int64))
    (hdivide : ∀ operation ∈ operations, ∀ position,
      operation.1 = .divide position → blame ⟨.divisionByZero, position⟩) :
    Yields (fun _ => True) blame (total before term operations) := by
  fun_induction total before term operations with
  | case1 before term =>
      trivial
  | case2 before term right rest ih =>
      exact ih (List.forall_mem_cons.1 hdivide).2
  | case3 before term right rest ih =>
      exact ih (List.forall_mem_cons.1 hdivide).2
  | case4 before term right rest ih =>
      exact ih (List.forall_mem_cons.1 hdivide).2
  | case5 before term position rest =>
      exact (List.forall_mem_cons.1 hdivide).1 position rfl
  | case6 before term position right rest hright ih =>
      exact ih (List.forall_mem_cons.1 hdivide).2

omit hwrites hframes in
/-- An operator and its operand stand behind what was computed before. -/
theorem pieces_eq_of_mem
    {a : Arithmetic}
    {operation : Operation}
    (h : operation ∈ a.second :: a.more) :
    ∃ before behind,
      a.pieces = before ++ operation.operator.piece :: operation.operand.piece :: behind := by
  obtain ⟨before, behind, heq⟩ := List.append_of_mem h
  refine ⟨a.first.piece :: before.flatMap Operation.pieces, behind.flatMap Operation.pieces, ?_⟩
  rw [pieces, heq]
  simp [Operation.pieces]

theorem yields_value
    {a : Arithmetic}
    (ha : a.pieces <:+: whole) :
    Yields (fun _ => True) (Blamed good settings whole) (a.value frames) := by
  have hfirst : Yields (fun _ => True) (Blamed good settings whole)
      (a.first.number Numeral.wholeOf? frames) := by
    refine a.first.yields_number hwrites hframes (ha.subset (by simp [pieces])) ?_
    intro text _ _
    refine .of_part ha [] _ rfl a.first.position?_piece ?_
    exact .operand a.first.isOperand_kind (.inr ⟨_, rfl, a.second.operator.isArithmetic_kind⟩)
  have hvalues : Yields
      (fun values => ∀ value ∈ values, ∀ position, value.1 = .divide position →
        Blamed good settings whole ⟨.divisionByZero, position⟩)
      (Blamed good settings whole) (Operation.values frames (a.second :: a.more)) := by
    refine .mapM _ fun operation hoperation => ?_
    obtain ⟨before, behind, heq⟩ := pieces_eq_of_mem hoperation
    have hmem : operation.operand.piece ∈ whole := ha.subset (by simp [heq])
    refine (operation.operand.yields_number hwrites hframes hmem ?_).bind fun right _ => ?_
    · intro text _ _
      refine .of_part ha (before ++ [operation.operator.piece]) behind (by simp [heq])
        operation.operand.position?_piece ?_
      exact .operand operation.operand.isOperand_kind
        (.inl ⟨_, by simp, operation.operator.isArithmetic_kind⟩)
    · intro position hdivide
      change operation.operator = .divide position at hdivide
      rw [hdivide] at heq
      exact .of_part ha before _ heq rfl (.division rfl)
  refine hfirst.bind fun first _ => ?_
  exact hvalues.bind fun operations hoperations => yields_total id first operations hoperations

end Arithmetic

theorem Value.yields_text
    {value : Value}
    (hvalue : value.pieces <:+: whole) :
    Yields good (Blamed good settings whole) (value.text frames) := by
  cases value with
  | operand o =>
      exact o.yields_text hwrites hframes (hvalue.subset (by simp [Value.pieces]))
  | arithmetic a =>
      exact (a.yields_value hwrites hframes hvalue).bind fun n _ => hwrites.total n

theorem Comparison.yields_truth
    {c : Comparison}
    (hc : c.pieces <:+: whole) :
    Yields (fun _ => True) (Blamed good settings whole) (c.truth frames) := by
  have hleft : Yields (fun _ => True) (Blamed good settings whole)
      (c.left.number Numeral.Double.ofText? frames) := by
    refine c.left.yields_number hwrites hframes (hc.subset (by simp [pieces])) ?_
    intro text hgood hread
    refine .of_part hc [] _ rfl c.left.position?_piece ?_
    exact .comparand c.left.isOperand_kind (.inr ⟨_, rfl, c.comparator.isRelational_kind⟩)
      hgood hread
  have hright : Yields (fun _ => True) (Blamed good settings whole)
      (c.right.number Numeral.Double.ofText? frames) := by
    refine c.right.yields_number hwrites hframes (hc.subset (by simp [pieces])) ?_
    intro text hgood hread
    refine .of_part hc [c.left.piece, .fixed c.comparator.kind] [] rfl
      c.right.position?_piece ?_
    exact .comparand c.right.isOperand_kind (.inl ⟨_, rfl, c.comparator.isRelational_kind⟩)
      hgood hread
  exact hleft.bind fun left _ => hright.bind fun right _ => trivial

theorem Condition.yields_truth
    {c : Condition}
    (hc : c.pieces <:+: whole) :
    Yields (fun _ => True) (Blamed good settings whole) (c.truth frames) := by
  have hfirst : c.first.pieces <:+: whole :=
    .trans ⟨[.fixed .openParen], _, by simp [pieces]; rfl⟩ hc
  refine (c.first.yields_truth hwrites hframes hfirst).bind fun first _ => ?_
  have htruths : Yields (fun _ => True) (Blamed good settings whole)
      (Link.truths frames c.links) := by
    refine (Yields.mapM (fun _ => True) fun link hlink => ?_).weaken fun _ _ => trivial
    obtain ⟨before, behind, heq⟩ := List.append_of_mem hlink
    have hlink : link.comparison.pieces <:+: whole := by
      refine .trans ⟨.fixed .openParen :: (c.first.pieces ++ before.flatMap Link.pieces
        ++ [.fixed link.connective.kind]), behind.flatMap Link.pieces ++ [.fixed .closeParen],
        ?_⟩ hc
      simp [pieces, heq, Link.pieces]
    exact (link.comparison.yields_truth hwrites hframes hlink).bind fun _ _ => trivial
  exact htruths.bind fun others _ => trivial

omit hwrites in
theorem Argument.yields_contents
    {a : Argument}
    (ha : a.piece ∈ whole) :
    Yields (fun _ => True) (Blamed good settings whole) (a.contents frames) := by
  cases a with
  | text quoted =>
      trivial
  | name n =>
      exact (n.yields_value hframes (Name.blamed_undeclared ha)).weaken fun _ _ => trivial

end Expressions

/-! ## Statements -/

section Statements

open Change World

variable {good : String → Prop}
variable {settings : Settings}
variable {whole : List Piece}

/-- All that can go wrong when a line is received is blamed on the target. -/
theorem Name.blamed_target
    {n : Name}
    {prompt : Argument}
    {cause : Cause}
    (h : (Statement.reception n prompt).pieces <:+: whole)
    (hcause : (∃ text, cause = .typeMismatch "a comet (integer)" text) ∨
      cause = .inputExhausted ∨ ∃ message, cause = .io message) :
    Blamed good settings whole ⟨cause, n.position⟩ := by
  refine .of_part h [] (.fixed .assignment :: .fixed .reception :: prompt.pieces) rfl rfl ?_
  exact .target rfl (List.prefix_append _ _) hcause

/-- A loop is blamed at its first word. -/
theorem blamed_excess
    {kind : Kind}
    {position : Position}
    (hkind : kind = .whirl ∨ kind = .launch)
    (h : ⟨kind, none, some position⟩ ∈ whole) :
    Blamed good settings whole (excess settings position) := by
  obtain ⟨before, behind, heq⟩ := List.append_of_mem h
  exact .piece heq rfl (.excess hkind)

/-- Of two parts side by side each is a part. -/
theorem infix_of_append
    {part other : List Piece}
    (h : part ++ other <:+: whole) :
    part <:+: whole ∧ other <:+: whole :=
  ⟨(List.prefix_append part other).isInfix.trans h,
    (List.suffix_append part other).isInfix.trans h⟩

/-- What stands behind a piece is a part. -/
theorem infix_of_cons
    {piece : Piece}
    {part : List Piece}
    (h : piece :: part <:+: whole) :
    part <:+: whole :=
  (List.suffix_cons piece part).isInfix.trans h

/-- What stands in braces is a part. -/
theorem infix_of_braced
    {part : List Piece}
    (h : braced part <:+: whole) :
    part <:+: whole :=
  (infix_of_append (infix_of_cons h)).1

/-- A guard is read in a sound world. -/
theorem Condition.upholds_look
    (hwrites : Writes good whole)
    {c : Condition}
    (hc : c.pieces <:+: whole) :
    Upholds (Sound good) (Blamed good settings whole) (look c.truth) fun _ => True :=
  .look fun _ hw => c.yields_truth hwrites hw.frames hc

theorem Value.upholds_look
    (hwrites : Writes good whole)
    {value : Value}
    (hvalue : value.pieces <:+: whole) :
    Upholds (Sound good) (Blamed good settings whole) (look fun frames => value.text frames)
      good :=
  .look fun _ hw => value.yields_text hwrites hw.frames hvalue

theorem Argument.upholds_look
    {a : Argument}
    (ha : a.piece ∈ whole) :
    Upholds (Sound good) (Blamed good settings whole) (look fun frames => a.contents frames)
      fun _ => True :=
  .look fun _ hw => a.yields_contents hw.frames ha

theorem upholds_receiveInto
    {target : Name}
    {prompt : Argument}
    (h : (Statement.reception target prompt).pieces <:+: whole) :
    Upholds (Sound good) (Blamed good settings whole) (receiveInto settings target prompt)
      fun _ => True := by
  have htarget : target.piece ∈ whole := h.subset (by simp [Statement.pieces])
  have hprompt : prompt.piece ∈ whole :=
    h.subset (by simp [Statement.pieces, Argument.pieces])
  have hio (message : String) : Blamed good settings whole ⟨.io message, target.position⟩ :=
    Name.blamed_target h (.inr (.inr ⟨message, rfl⟩))
  have hlook : Upholds (Sound good) (Blamed good settings whole) (look target.value) good :=
    .look fun _ hw => target.yields_value hw.frames (Name.blamed_undeclared htarget)
  refine hlook.bind fun _ _ => ?_
  refine (prompt.upholds_look hprompt).bind fun question _ => ?_
  refine (Upholds.emit fun _ => hio).bind fun _ _ => ?_
  refine (Upholds.flush hio).bind fun _ _ => ?_
  refine (Upholds.receive (Name.blamed_target h (.inr (.inl rfl))) hio).bind fun line hline => ?_
  dsimp only
  split
  · next hnumeral =>
      refine (Upholds.assign (hline hnumeral) (Name.blamed_undeclared htarget)).bind fun _ _ => ?_
      exact .record (hline hnumeral)
  · exact .throw (Name.blamed_target h (.inl ⟨_, rfl⟩))

mutual

theorem Statement.upholds_effect
    (hwrites : Writes good whole) :
    ∀ s : Statement, s.pieces <:+: whole →
      Upholds (Sound good) (Blamed good settings whole) (s.effect settings) fun _ => True
  | .declaration target value, h => by
      have htarget : target.piece ∈ whole := h.subset (by simp [Statement.pieces])
      have hvalue : value.pieces <:+: whole := (List.infix_append _ _ _).trans h
      rw [Statement.effect]
      refine (value.upholds_look hwrites hvalue).bind fun text hgood => ?_
      refine (Upholds.declare hgood (Name.blamed_alreadyDeclared htarget)).bind fun _ _ => ?_
      exact .record hgood
  | .assignment target value, h => by
      have htarget : target.piece ∈ whole := h.subset (by simp [Statement.pieces])
      have hvalue : value.pieces <:+: whole := (List.infix_append _ _ _).trans h
      rw [Statement.effect]
      refine (value.upholds_look hwrites hvalue).bind fun text hgood => ?_
      refine (Upholds.assign hgood (Name.blamed_undeclared htarget)).bind fun _ _ => ?_
      exact .record hgood
  | .transmission argument, h => by
      have hargument : argument.piece ∈ whole :=
        h.subset (by simp [Statement.pieces, Argument.pieces])
      rw [Statement.effect]
      refine (argument.upholds_look hargument).bind fun text _ => ?_
      exact .emit fun hsink message => .output hsink ⟨message, rfl⟩
  | .reception target prompt, h => by
      rw [Statement.effect]
      exact upholds_receiveInto h
  | .orbit guard body, h => by
      obtain ⟨h, -⟩ := infix_of_append h
      obtain ⟨hguard, hbody⟩ := infix_of_append h
      rw [Statement.effect]
      refine (guard.upholds_look hwrites (infix_of_cons hguard)).branch ?_ (.pure trivial)
      exact (body.upholds_effect hwrites (infix_of_braced hbody)).inSoundBlock
  | .orbitPropel guard body otherwise, h => by
      obtain ⟨h, -⟩ := infix_of_append h
      obtain ⟨h, hotherwise⟩ := infix_of_append h
      obtain ⟨hguard, hbody⟩ := infix_of_append h
      rw [Statement.effect]
      refine (guard.upholds_look hwrites (infix_of_cons hguard)).branch ?_ ?_
      · exact (body.upholds_effect hwrites (infix_of_braced hbody)).inSoundBlock
      · exact (otherwise.upholds_effect hwrites
          (infix_of_braced (infix_of_cons hotherwise))).inSoundBlock
  | .orbitNavigatePropel guard body second alternative otherwise, h => by
      obtain ⟨h, -⟩ := infix_of_append h
      obtain ⟨h, hotherwise⟩ := infix_of_append h
      obtain ⟨h, hnavigate⟩ := infix_of_append h
      obtain ⟨hguard, hbody⟩ := infix_of_append h
      obtain ⟨hsecond, halternative⟩ := infix_of_append hnavigate
      rw [Statement.effect]
      refine (guard.upholds_look hwrites (infix_of_cons hguard)).branch ?_ ?_
      · exact (body.upholds_effect hwrites (infix_of_braced hbody)).inSoundBlock
      · refine (second.upholds_look hwrites (infix_of_cons hsecond)).branch ?_ ?_
        · exact (alternative.upholds_effect hwrites (infix_of_braced halternative)).inSoundBlock
        · exact (otherwise.upholds_effect hwrites
            (infix_of_braced (infix_of_cons hotherwise))).inSoundBlock
  | .whirl position guard body, h => by
      have hfirst : ⟨.whirl, none, some position⟩ ∈ whole :=
        h.subset (by simp [Statement.pieces])
      obtain ⟨h, -⟩ := infix_of_append h
      obtain ⟨hguard, hbody⟩ := infix_of_append h
      rw [Statement.effect]
      refine .whileHolds (blamed_excess (.inl rfl) hfirst)
        (guard.upholds_look hwrites (infix_of_cons hguard)) ?_ _
      exact (body.upholds_effect hwrites (infix_of_braced hbody)).inSoundBlock
  | .launch position body guard, h => by
      have hfirst : ⟨.launch, none, some position⟩ ∈ whole :=
        h.subset (by simp [Statement.pieces])
      obtain ⟨h, -⟩ := infix_of_append h
      obtain ⟨hbody, hguard⟩ := infix_of_append h
      rw [Statement.effect]
      refine .untilFails (blamed_excess (.inr rfl) hfirst)
        (guard.upholds_look hwrites (infix_of_cons hguard)) ?_ _
      exact (body.upholds_effect hwrites (infix_of_braced (infix_of_cons hbody))).inSoundBlock

theorem Item.upholds_effect
    (hwrites : Writes good whole) :
    ∀ item : Item, item.pieces <:+: whole →
      Upholds (Sound good) (Blamed good settings whole) (item.effect settings) fun _ => True
  | .statement s, h => s.upholds_effect hwrites h
  | .arithmetic a, h => by
      have hlook : Upholds (Sound good) (Blamed good settings whole) (look a.value)
          fun _ => True :=
        .look fun _ hw => a.yields_value hwrites hw.frames h
      exact hlook.bind fun _ _ => .pure trivial

theorem Body.upholds_effect
    (hwrites : Writes good whole) :
    ∀ body : Body, body.pieces <:+: whole →
      Upholds (Sound good) (Blamed good settings whole) (body.effect settings) fun _ => True
  | .last item, h => item.upholds_effect hwrites h
  | .more item rest, h => by
      obtain ⟨hitem, hrest⟩ := infix_of_append h
      exact (item.upholds_effect hwrites hitem).bind fun _ _ => rest.upholds_effect hwrites hrest

end

theorem upholds_items
    (hwrites : Writes good whole)
    {items : List Item}
    (h : items.flatMap Item.pieces <:+: whole) :
    Upholds (Sound good) (Blamed good settings whole) (items.forM (·.effect settings))
      fun _ => True := by
  induction items with
  | nil =>
      exact .pure trivial
  | cons item items ih =>
      obtain ⟨hitem, hitems⟩ := infix_of_append h
      exact (item.upholds_effect hwrites hitem).bind fun _ _ => ih hitems

end Statements

/--
Let the values that a program can write be good. Then a run of it keeps the
world sound, and a fault of it is blamed on a piece of the program.
-/
theorem Program.upholds_effect
    {good : String → Prop}
    {program : Program}
    (hwrites : Writes good program.pieces)
    (settings : Settings) :
    Change.Upholds (World.Sound good) (Blamed good settings program.pieces)
      (program.effect settings) fun _ => True := by
  cases program with
  | empty =>
      rw [effect]
      exact .inSoundBlock (.pure trivial)
  | items before last =>
      obtain ⟨hbefore, hlast⟩ := infix_of_append (List.infix_refl _)
      rw [effect]
      refine .inSoundBlock ?_
      exact (upholds_items hwrites hbefore).bind fun _ _ => last.upholds_effect hwrites hlast
  | arithmetic a =>
      exact ((Item.arithmetic a).upholds_effect hwrites (List.infix_refl _)).inSoundBlock

end Abstract

/-! ## Runs -/

/-- One of the tokens is to blame for the fault. -/
def Culprit
    (good : String → Prop)
    (tokens : List Token)
    (fault : Fault) : Prop :=
  ∃ before t behind,
    tokens = before ++ t :: behind ∧ t.position = fault.position ∧
      Culpable good (before.map Token.kind) t.kind (some t.value) (behind.map Token.kind)
        fault.cause

namespace Culpable

variable {good : String → Prop}
variable {before behind : List Kind}
variable {kind : Kind}
variable {cause : Cause}

/-- The value that is asked for is that of the token. -/
theorem of_value
    {value? : Option String}
    {value : String}
    (h : Culpable good before kind value? behind cause)
    (hvalue : ∀ v ∈ value?, value = v) :
    Culpable good before kind (some value) behind cause := by
  cases h with
  | undeclared hkind hname =>
      exact .undeclared hkind (congrArg some (hvalue _ hname))
  | alreadyDeclared hkind hname =>
      exact .alreadyDeclared hkind (congrArg some (hvalue _ hname))
  | division hkind =>
      exact .division hkind
  | excess hkind =>
      exact .excess hkind
  | operand hkind hbeside =>
      exact .operand hkind hbeside
  | comparand hkind hbeside hgood hread =>
      exact .comparand hkind hbeside hgood hread
  | target hkind hbehind hcause =>
      exact .target hkind hbehind hcause

end Culpable

/-- The token that is spelt by the piece is to blame. -/
theorem Blamed.culprit
    {good : String → Prop}
    {settings : Settings}
    {pieces : List Piece}
    {tokens : List Token}
    {fault : Fault}
    (h : Blamed good settings pieces fault)
    (hspelt : Spelt pieces tokens) :
    Culprit good tokens fault ∨
      ¬ settings.sink.TakesAll ∧ ∃ message, fault = ⟨.io message, .unknown⟩ := by
  cases h with
  | piece hwhole hposition hculpable =>
      subst hwhole
      obtain ⟨before, rest, rfl, hbefore, hrest⟩ := spelt_append hspelt
      obtain ⟨t, behind, rfl, ht, hbehind⟩ := spelt_cons hrest
      rw [← map_kind_of_spelt hbefore, ← map_kind_of_spelt hbehind, ← ht.kind] at hculpable
      exact .inl ⟨before, t, behind, rfl, ht.position _ hposition, hculpable.of_value ht.value⟩
  | output hsink hfault =>
      exact .inr ⟨hsink, hfault⟩

namespace Derivation

/--
Let the literals of an accepted program be good, and so what is written for a
number. Then a run of its tree keeps the world sound, and one of its tokens is
to blame for a fault, or an output that takes no more.
-/
theorem ends_run_parse
    {good : String → Prop}
    {tokens : List Token}
    (haccept : (parse tokens).verdict = .accept)
    (hliteral : ∀ t ∈ tokens, t.kind = .cometLiteral → good t.value)
    (htotal : ∀ n, good (Numeral.wholeText n))
    (settings : Settings)
    {m : Machine}
    (hm : m.visible.Sound good) :
    Change.Ends (World.Sound good)
      (fun fault => Culprit good tokens fault ∨
        ¬ settings.sink.TakesAll ∧ ∃ message, fault = ⟨.io message, .unknown⟩)
      (fun _ => True)
      (Action.seen id (Machine.run settings (parse tokens).tree m)) := by
  obtain ⟨program, hspells⟩ := exists_program (program_of_accepted haccept)
  have hwrites : Writes good program.pieces := by
    refine ⟨?_, htotal⟩
    intro piece hpiece hkind text htext
    obtain ⟨token, htoken, hmatches⟩ := exists_matching hspells hpiece
    rw [← hmatches.value text htext]
    exact hliteral token htoken (hmatches.kind.trans hkind)
  have heffect := program.upholds_effect hwrites settings m.visible hm
  rw [simulates_parse hspells settings m]
  cases hend : program.effect settings m.visible with
  | ok a w =>
      rw [hend] at heffect
      exact heffect
  | error fault w =>
      rw [hend] at heffect
      exact ⟨heffect.1, heffect.2.culprit hspells⟩

end Derivation
end CometLang
