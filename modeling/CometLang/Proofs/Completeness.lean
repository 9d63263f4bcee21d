import CometLang.Proofs.Resting

/-!
# Every program is read

The tokens of every statement are read to one gathered item that shows it. Each
statement is read part by part: what is already read waits for the next part and
does not mix with it. By induction over statements, items and bodies this holds
at any depth of nesting.
-/

namespace CometLang

open Limb

/-! ## Parts of statements -/

namespace Head

/-- What can stand in front of a condition, from the first word on. -/
def all : List (List Symbol) :=
  [[Kind.orbit.sketch],
   [Kind.whirl.sketch],
   [Kind.launch.sketch, .nonterminal .stmt, Kind.whirl.sketch],
   [Kind.orbit.sketch, .nonterminal .conditionalExp, .nonterminal .stmt,
    Kind.navigate.sketch]]

theorem awaits :
    ∀ w ∈ all, Guard.awaits Chain.endings w = true := by
  decide

end Head

namespace Binder

/-- What can stand in front of a value, from the first token on. -/
def all : List (List Symbol) :=
  [[Kind.comet.sketch, .nonterminal .identifier, Kind.assignment.sketch],
   [.nonterminal .identifier, Kind.assignment.sketch]]

theorem awaits :
    ∀ w ∈ all, Guard.awaits Pending.endings w = true := by
  decide

/-- The phrases that a value can be. -/
def values : List Symbol :=
  [.nonterminal .identifier, .nonterminal .cometLiteral, .nonterminal .arithExp]

theorem plan_operand :
    ∀ operand ∈ Chain.operands,
      Symbol.nonterminal operand.2 ∈ values ∧
        plan? Pending.guard [] [operand.1] = some [[⟨0, 1, operand.2⟩]] := by
  decide

end Binder

namespace Abstract

/-- A condition is read behind the word that asks for it. -/
theorem Condition.exists_reads_behind
    {c : Condition}
    {front : List Limb}
    {tokens : List Token}
    (hfront : sketch front ∈ Head.all)
    (hspelt : Spelt c.pieces tokens) :
    ∃ limb,
      limb.symbol = .nonterminal .conditionalExp ∧ c.Shows limb.tree ∧
        Reads Guard.unclosed front tokens (front ++ [limb]) := by
  obtain ⟨limb, hreads, hform, hshows⟩ := Condition.exists_reads hspelt
  have hbehind := hreads.behind (separates_of_awaits (Head.awaits _ hfront))
  rw [List.append_nil] at hbehind
  exact ⟨limb, hform, hshows, hbehind⟩

/-- A value is read behind a sign of assignment, and settled by the semicolon. -/
theorem Value.exists_reads_behind
    {v : Value}
    {front : List Limb}
    {tokens : List Token}
    {semicolon : Token}
    (hfront : sketch front ∈ Binder.all)
    (hspelt : Spelt v.pieces tokens)
    (hsemicolon : semicolon.kind = .semicolon) :
    ∃ right,
      right.symbol ∈ Binder.values ∧ v.Shows right.tree ∧
        ∀ last, Settles .primary Guard.unclosed (front ++ [right, leaf semicolon]) last →
          Reads Guard.unclosed front (tokens ++ [semicolon]) last := by
  have hseparates := separates_of_awaits (Binder.awaits _ hfront)
  cases v with
  | operand o =>
      obtain ⟨token, rfl, htoken⟩ := spelt_one hspelt
      obtain ⟨hvalue, hplan⟩ := Binder.plan_operand _ o.form_mem
      have hreads : Reads Pending.guard [] [token] [phrase o.form [leaf token]] :=
        reads_of_plan [] [token] [[⟨0, 1, o.form⟩]] Pending.guard_sketchable rfl
          (congrArg (· :: []) htoken.kind) hplan
      have hbehind := hreads.behind hseparates
      rw [List.append_nil] at hbehind
      refine ⟨phrase o.form [leaf token], hvalue, ⟨token, htoken, rfl⟩, ?_⟩
      intro last hlast
      exact hbehind.append (.single (by simpa using hlast))
  | arithmetic a =>
      obtain ⟨limbs, hreads, hcomplete⟩ := Arithmetic.exists_reads hspelt
      have hbehind := hreads.behind hseparates
      rw [List.append_nil] at hbehind
      refine ⟨phrase .arithExp limbs, by simp [Binder.values], ⟨trees limbs, rfl, ?_⟩, ?_⟩
      · have hleaves := hreads.leaves_eq
        simp only [tree_phrase, leaves_tree_phrase, hleaves]
        exact hspelt
      · intro last hlast
        have hcloser : (leaf semicolon).symbol.sketch ∈ Pending.closers := by
          rw [symbol_leaf, Symbol.sketch, hsemicolon]
          exact List.mem_cons_self
        have hfires := (fires_arithmetic hcomplete hcloser).behind hseparates
        rw [← List.append_assoc] at hfires
        exact hbehind.append (.single (hfires.settles hlast))

end Abstract

/-! ## Statements -/

namespace Binder

theorem schedule_declaration :
    ∀ s ∈ values,
      schedule? .primary Guard.unclosed 6
          [Kind.comet.sketch, .nonterminal .identifier, Kind.assignment.sketch, s,
            Kind.semicolon.sketch]
        = some [⟨0, 5, .decStmt⟩, ⟨0, 1, .expr⟩] := by
  decide

theorem schedule_assignment :
    ∀ s ∈ values,
      schedule? .primary Guard.unclosed 6
          [.nonterminal .identifier, Kind.assignment.sketch, s, Kind.semicolon.sketch]
        = some [⟨0, 4, .assignStmt⟩, ⟨0, 1, .expr⟩] := by
  decide

/-- The phrase of a value has no token to be blanked. -/
theorem sketch_value
    {s : Symbol}
    (h : s ∈ values) :
    s.sketch = s := by
  simp only [values, List.mem_cons, List.not_mem_nil, or_false] at h
  rcases h with rfl | rfl | rfl <;> rfl

end Binder

namespace Abstract

theorem Statement.readable_declaration
    (target : Name)
    (value : Value) :
    (Statement.declaration target value).Readable := by
  intro tokens hspelt
  rw [Statement.pieces] at hspelt
  obtain ⟨front, ends, rfl, hfront, hends⟩ := spelt_append hspelt
  obtain ⟨heads, vs, rfl, hheads, hvalue⟩ := spelt_append hfront
  obtain ⟨comet, more, rfl, hcomet, hmore⟩ := spelt_cons hheads
  obtain ⟨name, more, rfl, hname, hmore⟩ := spelt_cons hmore
  obtain ⟨sign, rfl, hsign⟩ := spelt_one hmore
  obtain ⟨semicolon, rfl, hsemicolon⟩ := spelt_one hends
  have hkinds :
      [comet, name, sign].map Token.kind = [.comet, .identifier, .assignment] := by
    simp [hcomet.kind, hname.kind, hsign.kind]
  have hfirst :
      Reads Guard.unclosed [] [comet, name, sign]
        [leaf comet, phrase .identifier [leaf name], leaf sign] :=
    reads_of_plan [] [comet, name, sign] [[], [⟨1, 1, .identifier⟩], []]
      Guard.unclosed_sketchable rfl hkinds (by decide)
  have hfront :
      sketch [leaf comet, phrase .identifier [leaf name], leaf sign] ∈ Binder.all := by
    simp [hcomet.kind, hsign.kind, Binder.all]
  obtain ⟨right, hright, hshows, hreads⟩ :=
    Value.exists_reads_behind hfront hvalue hsemicolon.kind
  have hsketch :
      sketch [leaf comet, phrase .identifier [leaf name], leaf sign, right, leaf semicolon]
        = [Kind.comet.sketch, .nonterminal .identifier, Kind.assignment.sketch, right.symbol,
            Kind.semicolon.sketch] := by
    simp [hcomet.kind, hsign.kind, hsemicolon.kind, Binder.sketch_value hright]
  have hlast := hreads _ (settles_of_schedule 6 _ _ Guard.unclosed_sketchable hsketch
    (Binder.schedule_declaration _ hright))
  refine ⟨phrase .decStmt
    [leaf comet, phrase .identifier [leaf name], leaf sign, right, leaf semicolon], ?_, ?_⟩
  · rw [List.append_assoc]
    exact hfirst.append hlast
  · rw [Statement.Shows]
    exact ⟨comet, _, sign, right.tree, semicolon, rfl, hcomet.kind, hsign.kind,
      ⟨name, hname, rfl⟩, hshows⟩

theorem Statement.readable_assignment
    (target : Name)
    (value : Value) :
    (Statement.assignment target value).Readable := by
  intro tokens hspelt
  rw [Statement.pieces] at hspelt
  obtain ⟨front, ends, rfl, hfront, hends⟩ := spelt_append hspelt
  obtain ⟨heads, vs, rfl, hheads, hvalue⟩ := spelt_append hfront
  obtain ⟨name, more, rfl, hname, hmore⟩ := spelt_cons hheads
  obtain ⟨sign, rfl, hsign⟩ := spelt_one hmore
  obtain ⟨semicolon, rfl, hsemicolon⟩ := spelt_one hends
  have hkinds : [name, sign].map Token.kind = [.identifier, .assignment] := by
    simp [hname.kind, hsign.kind]
  have hfirst :
      Reads Guard.unclosed [] [name, sign] [phrase .identifier [leaf name], leaf sign] :=
    reads_of_plan [] [name, sign] [[⟨0, 1, .identifier⟩], []]
      Guard.unclosed_sketchable rfl hkinds (by decide)
  have hfront : sketch [phrase .identifier [leaf name], leaf sign] ∈ Binder.all := by
    simp [hsign.kind, Binder.all]
  obtain ⟨right, hright, hshows, hreads⟩ :=
    Value.exists_reads_behind hfront hvalue hsemicolon.kind
  have hsketch :
      sketch [phrase .identifier [leaf name], leaf sign, right, leaf semicolon]
        = [.nonterminal .identifier, Kind.assignment.sketch, right.symbol,
            Kind.semicolon.sketch] := by
    simp [hsign.kind, hsemicolon.kind, Binder.sketch_value hright]
  have hlast := hreads _ (settles_of_schedule 6 _ _ Guard.unclosed_sketchable hsketch
    (Binder.schedule_assignment _ hright))
  refine ⟨phrase .assignStmt
    [phrase .identifier [leaf name], leaf sign, right, leaf semicolon], ?_, ?_⟩
  · rw [List.append_assoc]
    exact hfirst.append hlast
  · rw [Statement.Shows]
    exact ⟨_, sign, right.tree, semicolon, rfl, hsign.kind, ⟨name, hname, rfl⟩, hshows⟩

end Abstract

namespace Io

/-- The kinds of what can be transmitted, with the phrases they are gathered into. -/
def arguments : List (Kind × Nonterminal) :=
  [(.string, .string), (.identifier, .identifier)]

theorem plan_transmission :
    ∀ argument ∈ arguments,
      plan? Guard.unclosed []
          [.transmission, .openParen, argument.1, .closeParen, .semicolon]
        = some [[], [], [⟨2, 1, argument.2⟩], [],
            [⟨1, 4, .ioStmt⟩, ⟨0, 2, .transmissionStmt⟩, ⟨0, 1, .expr⟩]] := by
  decide

theorem plan_reception :
    ∀ argument ∈ arguments,
      plan? Guard.unclosed []
          [.identifier, .assignment, .reception, .openParen, argument.1, .closeParen,
            .semicolon]
        = some [[⟨0, 1, .identifier⟩], [], [], [], [⟨4, 1, argument.2⟩], [],
            [⟨3, 4, .ioStmt⟩, ⟨0, 4, .receptionStmt⟩, ⟨0, 1, .expr⟩]] := by
  decide

end Io

namespace Abstract

theorem Argument.form_mem
    (a : Argument) :
    (a.piece.kind, a.form) ∈ Io.arguments := by
  cases a <;> simp [piece, form, Io.arguments]

theorem Statement.readable_transmission
    (argument : Argument) :
    (Statement.transmission argument).Readable := by
  intro tokens hspelt
  rw [Statement.pieces, Argument.pieces] at hspelt
  obtain ⟨word, more, rfl, hword, hmore⟩ := spelt_cons hspelt
  obtain ⟨opening, more, rfl, hopening, hmore⟩ := spelt_cons hmore
  obtain ⟨token, more, rfl, htoken, hmore⟩ := spelt_cons hmore
  obtain ⟨closing, more, rfl, hclosing, hmore⟩ := spelt_cons hmore
  obtain ⟨semicolon, rfl, hsemicolon⟩ := spelt_one hmore
  have hkinds :
      [word, opening, token, closing, semicolon].map Token.kind
        = [.transmission, .openParen, argument.piece.kind, .closeParen, .semicolon] := by
    simp [hword.kind, hopening.kind, htoken.kind, hclosing.kind, hsemicolon.kind]
  refine ⟨phrase .transmissionStmt
    [leaf word, phrase .ioStmt
      [leaf opening, phrase argument.form [leaf token], leaf closing, leaf semicolon]], ?_, ?_⟩
  · have hplan := Io.plan_transmission _ argument.form_mem
    have hreads := reads_of_plan [] _ _ Guard.unclosed_sketchable rfl hkinds hplan
    exact hreads
  · rw [Statement.Shows]
    exact ⟨word, _, rfl, opening, _, closing, semicolon, rfl, token, htoken, rfl⟩

theorem Statement.readable_reception
    (target : Name)
    (prompt : Argument) :
    (Statement.reception target prompt).Readable := by
  intro tokens hspelt
  rw [Statement.pieces, Argument.pieces] at hspelt
  obtain ⟨name, more, rfl, hname, hmore⟩ := spelt_cons hspelt
  obtain ⟨sign, more, rfl, hsign, hmore⟩ := spelt_cons hmore
  obtain ⟨word, more, rfl, hword, hmore⟩ := spelt_cons hmore
  obtain ⟨opening, more, rfl, hopening, hmore⟩ := spelt_cons hmore
  obtain ⟨token, more, rfl, htoken, hmore⟩ := spelt_cons hmore
  obtain ⟨closing, more, rfl, hclosing, hmore⟩ := spelt_cons hmore
  obtain ⟨semicolon, rfl, hsemicolon⟩ := spelt_one hmore
  have hkinds :
      [name, sign, word, opening, token, closing, semicolon].map Token.kind
        = [.identifier, .assignment, .reception, .openParen, prompt.piece.kind, .closeParen,
            .semicolon] := by
    simp [hname.kind, hsign.kind, hword.kind, hopening.kind, htoken.kind, hclosing.kind,
      hsemicolon.kind]
  refine ⟨phrase .receptionStmt
    [phrase .identifier [leaf name], leaf sign, leaf word, phrase .ioStmt
      [leaf opening, phrase prompt.form [leaf token], leaf closing, leaf semicolon]], ?_, ?_⟩
  · have hplan := Io.plan_reception _ prompt.form_mem
    have hreads := reads_of_plan [] _ _ Guard.unclosed_sketchable rfl hkinds hplan
    exact hreads
  · rw [Statement.Shows]
    exact ⟨_, sign, word, _, rfl, ⟨name, hname, rfl⟩,
      opening, _, closing, semicolon, rfl, token, htoken, rfl⟩

end Abstract

namespace Guarded

/-- The words that ask for a condition and a block, with their statements. -/
def all : List (Kind × Nonterminal) :=
  [(.orbit, .orbitStmt), (.whirl, .whirlLoop)]

theorem starts :
    ∀ entry ∈ all,
      entry.1 ∈ Pending.words ∧ [entry.1.sketch] ∈ Head.all ∧
        [entry.1.sketch, .nonterminal .conditionalExp] ∈ Opener.all := by
  decide

theorem schedules :
    ∀ entry ∈ all,
      schedule? .primary Guard.unclosed 6
          [entry.1.sketch, .nonterminal .conditionalExp, .nonterminal .stmt]
        = some [] ∧
      schedule? .primary Guard.unclosed 6
          [entry.1.sketch, .nonterminal .conditionalExp, .nonterminal .stmt,
            Kind.semicolon.sketch]
        = some [⟨0, 4, entry.2⟩, ⟨0, 1, .expr⟩] := by
  decide

end Guarded

namespace Abstract

/-- A word, the condition behind it and the block are read. -/
theorem exists_reads_guarded
    {word : Token}
    {form : Nonterminal}
    {guard : Condition}
    {body : Body}
    {cs bs : List Token}
    (hword : (word.kind, form) ∈ Guarded.all)
    (hguard : Spelt guard.pieces cs)
    (hbody : body.Readable)
    (hblock : Spelt (braced body.pieces) bs) :
    ∃ condition block,
      condition.symbol = .nonterminal .conditionalExp ∧ guard.Shows condition.tree ∧
        block.symbol = .nonterminal .stmt ∧ Encloses body.Show block.tree ∧
        Reads Guard.unclosed [] (word :: cs ++ bs) [leaf word, condition, block] := by
  obtain ⟨hstarts, hhead, hopener⟩ := Guarded.starts _ hword
  have hfirst : Reads Guard.unclosed [] [word] [leaf word] :=
    .single (starts_word hstarts).settles
  have hhead' : sketch [leaf word] ∈ Head.all := hhead
  obtain ⟨condition, hcondition, hshows, hreads⟩ :=
    Condition.exists_reads_behind hhead' hguard
  have hsketch :
      sketch [leaf word, condition] = [word.kind.sketch, .nonterminal .conditionalExp] := by
    simp [hcondition]
  obtain ⟨block, hstmt, hencloses, hreads'⟩ :=
    hbody.exists_reads_braced (hsketch ▸ hopener) hblock
  have hdone := settles_of_schedule 6 [leaf word, condition, block] []
    Guard.unclosed_sketchable (by simp [hcondition, hstmt]) (Guarded.schedules _ hword).1
  refine ⟨condition, block, hcondition, hshows, hstmt, hencloses, ?_⟩
  exact (hfirst.append hreads).append (hreads' _ hdone)

/-- A statement of a word, a condition and a block is read. -/
theorem exists_reads_closed
    {word semicolon : Token}
    {form : Nonterminal}
    {guard : Condition}
    {body : Body}
    {tokens : List Token}
    (hword : (word.kind, form) ∈ Guarded.all)
    (hbody : body.Readable)
    (hspelt : Spelt (guard.pieces ++ braced body.pieces) tokens)
    (hsemicolon : semicolon.kind = .semicolon) :
    ∃ condition block,
      guard.Shows condition.tree ∧ Encloses body.Show block.tree ∧
        Reads Guard.unclosed [] (word :: tokens ++ [semicolon])
          [phrase .expr [phrase form [leaf word, condition, block, leaf semicolon]]] := by
  obtain ⟨cs, bs, rfl, hguard, hblock⟩ := spelt_append hspelt
  obtain ⟨condition, block, hcondition, hshows, hstmt, hencloses, hreads⟩ :=
    exists_reads_guarded hword hguard hbody hblock
  have hlast := settles_of_schedule 6 [leaf word, condition, block, leaf semicolon]
    [⟨0, 4, form⟩, ⟨0, 1, .expr⟩] Guard.unclosed_sketchable
    (by simp [hcondition, hstmt, hsemicolon]) (Guarded.schedules _ hword).2
  exact ⟨condition, block, hshows, hencloses, hreads.append (.single hlast)⟩

theorem Statement.readable_orbit
    {guard : Condition}
    {body : Body}
    (hbody : body.Readable) :
    (Statement.orbit guard body).Readable := by
  intro tokens hspelt
  rw [Statement.pieces] at hspelt
  obtain ⟨front, ends, rfl, hfront, hends⟩ := spelt_append hspelt
  obtain ⟨word, rest, rfl, hword, hrest⟩ := spelt_cons hfront
  obtain ⟨semicolon, rfl, hsemicolon⟩ := spelt_one hends
  have hentry : (word.kind, .orbitStmt) ∈ Guarded.all := by
    simp [hword.kind, Guarded.all]
  obtain ⟨condition, block, hshows, hencloses, hreads⟩ :=
    exists_reads_closed hentry hbody hrest hsemicolon.kind
  refine ⟨_, hreads, ?_⟩
  rw [Statement.Shows]
  exact ⟨word, condition.tree, block.tree, semicolon, rfl, hshows, hencloses⟩

theorem Statement.readable_whirl
    {position : Position}
    {guard : Condition}
    {body : Body}
    (hbody : body.Readable) :
    (Statement.whirl position guard body).Readable := by
  intro tokens hspelt
  rw [Statement.pieces] at hspelt
  obtain ⟨front, ends, rfl, hfront, hends⟩ := spelt_append hspelt
  obtain ⟨word, rest, rfl, hword, hrest⟩ := spelt_cons hfront
  obtain ⟨semicolon, rfl, hsemicolon⟩ := spelt_one hends
  have hentry : (word.kind, .whirlLoop) ∈ Guarded.all := by
    simp [hword.kind, Guarded.all]
  obtain ⟨condition, block, hshows, hencloses, hreads⟩ :=
    exists_reads_closed hentry hbody hrest hsemicolon.kind
  refine ⟨_, hreads, ?_⟩
  rw [Statement.Shows]
  exact ⟨word, condition.tree, block.tree, semicolon, rfl, hword.position _ rfl, hshows,
    hencloses⟩

end Abstract

namespace Branch

/-- What can stand in front of the last branch of a cascade. -/
def fronts : List (List Symbol) :=
  [[Kind.orbit.sketch, .nonterminal .conditionalExp, .nonterminal .stmt],
   [Kind.orbit.sketch, .nonterminal .conditionalExp, .nonterminal .stmt,
    .nonterminal .navigateStmt]]

theorem opens :
    ∀ w ∈ fronts, w ++ [Kind.propel.sketch] ∈ Opener.all := by
  decide

theorem schedules :
    ∀ w ∈ fronts,
      schedule? .primary Guard.unclosed 6 (w ++ [Kind.propel.sketch]) = some [] ∧
      schedule? .primary Guard.unclosed 6 (w ++ [Kind.propel.sketch, .nonterminal .stmt])
        = some [⟨w.length, 2, .propelStmt⟩] ∧
      schedule? .primary Guard.unclosed 6
          (w ++ [.nonterminal .propelStmt, Kind.semicolon.sketch])
        = some [⟨0, w.length + 2, .orbitStmt⟩, ⟨0, 1, .expr⟩] := by
  decide

end Branch

namespace Abstract

/-- The last branch of a cascade is read, and the semicolon behind it. -/
theorem exists_reads_propel
    {front : List Limb}
    {propel semicolon : Token}
    {body : Body}
    {bs : List Token}
    (hfront : sketch front ∈ Branch.fronts)
    (hpropel : propel.kind = .propel)
    (hbody : body.Readable)
    (hblock : Spelt (braced body.pieces) bs)
    (hsemicolon : semicolon.kind = .semicolon) :
    ∃ block,
      Encloses body.Show block.tree ∧
        Reads Guard.unclosed front (propel :: bs ++ [semicolon])
          [phrase .expr [phrase .orbitStmt
            (front ++ [phrase .propelStmt [leaf propel, block], leaf semicolon])]] := by
  obtain ⟨hword, hbranch, hstatement⟩ := Branch.schedules _ hfront
  have hsketch : sketch (front ++ [leaf propel]) = sketch front ++ [Kind.propel.sketch] := by
    simp [hpropel]
  have hopener : sketch (front ++ [leaf propel]) ∈ Opener.all :=
    hsketch ▸ Branch.opens _ hfront
  have hfirst : Reads Guard.unclosed front [propel] (front ++ [leaf propel]) :=
    .single (settles_of_schedule 6 _ [] Guard.unclosed_sketchable hsketch hword)
  obtain ⟨block, hstmt, hencloses, hreads⟩ := hbody.exists_reads_braced hopener hblock
  let branch := phrase .propelStmt [leaf propel, block]
  have hsplice :
      splice (front ++ [leaf propel, block]) ⟨front.length, 2, .propelStmt⟩
        = front ++ [branch] := by
    simpa using splice_append front [leaf propel, block] [] .propelStmt
  have hgathered := settles_of_schedule 6 (front ++ [leaf propel, block]) _
    Guard.unclosed_sketchable (by simp [hpropel, hstmt]) hbranch
  rw [length_sketch, List.foldl_cons, hsplice, List.foldl_nil] at hgathered
  have hsplice' :
      splice (front ++ [branch, leaf semicolon]) ⟨0, front.length + 2, .orbitStmt⟩
        = [phrase .orbitStmt (front ++ [branch, leaf semicolon])] := by
    simpa using splice_front (front ++ [branch, leaf semicolon]) [] .orbitStmt
  have hclosed := settles_of_schedule 6 (front ++ [branch, leaf semicolon]) _
    Guard.unclosed_sketchable (by simp [branch, hsemicolon]) hstatement
  rw [length_sketch, List.foldl_cons, hsplice'] at hclosed
  have hblock' := hreads _ (by simpa using hgathered)
  refine ⟨block, hencloses, (hfirst.append hblock').append (.single ?_)⟩
  rw [List.append_assoc]
  exact hclosed

theorem Statement.readable_orbitPropel
    {guard : Condition}
    {body otherwise : Body}
    (hbody : body.Readable)
    (hotherwise : otherwise.Readable) :
    (Statement.orbitPropel guard body otherwise).Readable := by
  intro tokens hspelt
  rw [Statement.pieces] at hspelt
  obtain ⟨front, ends, rfl, hfront, hends⟩ := spelt_append hspelt
  obtain ⟨front, propels, rfl, hfront, hpropels⟩ := spelt_append hfront
  obtain ⟨head, bs, rfl, hhead, hblock⟩ := spelt_append hfront
  obtain ⟨word, cs, rfl, hword, hguard⟩ := spelt_cons hhead
  obtain ⟨propel, bs', rfl, hpropel, hblock'⟩ := spelt_cons hpropels
  obtain ⟨semicolon, rfl, hsemicolon⟩ := spelt_one hends
  have hentry : (word.kind, .orbitStmt) ∈ Guarded.all := by
    simp [hword.kind, Guarded.all]
  obtain ⟨condition, block, hcondition, hshows, hstmt, hencloses, hreads⟩ :=
    exists_reads_guarded hentry hguard hbody hblock
  have hsketch : sketch [leaf word, condition, block] ∈ Branch.fronts := by
    simp [hword.kind, hcondition, hstmt, Branch.fronts]
  obtain ⟨last, hlast, hreads'⟩ :=
    exists_reads_propel hsketch hpropel.kind hotherwise hblock' hsemicolon.kind
  refine ⟨_, by simpa using hreads.append hreads', ?_⟩
  rw [Statement.Shows]
  exact ⟨word, condition.tree, block.tree, propel, last.tree, semicolon, rfl, hshows,
    hencloses, hlast⟩

end Abstract

namespace Branch

theorem schedules_navigate :
    schedule? .primary Guard.unclosed 6
        [Kind.orbit.sketch, .nonterminal .conditionalExp, .nonterminal .stmt,
          Kind.navigate.sketch]
      = some [] ∧
    schedule? .primary Guard.unclosed 6
        [Kind.orbit.sketch, .nonterminal .conditionalExp, .nonterminal .stmt,
          Kind.navigate.sketch, .nonterminal .conditionalExp, .nonterminal .stmt]
      = some [⟨3, 3, .navigateStmt⟩] := by
  decide

end Branch

namespace Abstract

theorem Statement.readable_orbitNavigatePropel
    {guard second : Condition}
    {body alternative otherwise : Body}
    (hbody : body.Readable)
    (halternative : alternative.Readable)
    (hotherwise : otherwise.Readable) :
    (Statement.orbitNavigatePropel guard body second alternative otherwise).Readable := by
  intro tokens hspelt
  rw [Statement.pieces] at hspelt
  obtain ⟨front, ends, rfl, hfront, hends⟩ := spelt_append hspelt
  obtain ⟨front, propels, rfl, hfront, hpropels⟩ := spelt_append hfront
  obtain ⟨front, navigates, rfl, hfront, hnavigates⟩ := spelt_append hfront
  obtain ⟨head, bs, rfl, hhead, hblock⟩ := spelt_append hfront
  obtain ⟨word, cs, rfl, hword, hguard⟩ := spelt_cons hhead
  obtain ⟨head', bs', rfl, hhead', hblock'⟩ := spelt_append hnavigates
  obtain ⟨navigate, cs', rfl, hnavigate, hsecond⟩ := spelt_cons hhead'
  obtain ⟨propel, bs'', rfl, hpropel, hblock''⟩ := spelt_cons hpropels
  obtain ⟨semicolon, rfl, hsemicolon⟩ := spelt_one hends
  have hentry : (word.kind, .orbitStmt) ∈ Guarded.all := by
    simp [hword.kind, Guarded.all]
  obtain ⟨condition, block, hcondition, hshows, hstmt, hencloses, hreads⟩ :=
    exists_reads_guarded hentry hguard hbody hblock
  -- the second branch, which is gathered as soon as its block is
  have hnext := settles_of_schedule 6 [leaf word, condition, block, leaf navigate] []
    Guard.unclosed_sketchable (by simp [hword.kind, hcondition, hstmt, hnavigate.kind])
    Branch.schedules_navigate.1
  have hhead : sketch [leaf word, condition, block, leaf navigate] ∈ Head.all := by
    simp [hword.kind, hcondition, hstmt, hnavigate.kind, Head.all]
  obtain ⟨other, hother, hshows', hreads'⟩ := Condition.exists_reads_behind hhead hsecond
  have hopener : sketch [leaf word, condition, block, leaf navigate, other] ∈ Opener.all := by
    simp [hword.kind, hcondition, hstmt, hnavigate.kind, hother, Opener.all]
  obtain ⟨middle, hmiddle, hencloses', hreads''⟩ :=
    halternative.exists_reads_braced hopener hblock'
  have hgathered := settles_of_schedule 6
    [leaf word, condition, block, leaf navigate, other, middle] [⟨3, 3, .navigateStmt⟩]
    Guard.unclosed_sketchable
    (by simp [hword.kind, hcondition, hstmt, hnavigate.kind, hother, hmiddle])
    Branch.schedules_navigate.2
  let branch := phrase .navigateStmt [leaf navigate, other, middle]
  have hsketch : sketch [leaf word, condition, block, branch] ∈ Branch.fronts := by
    simp [branch, hword.kind, hcondition, hstmt, Branch.fronts]
  obtain ⟨last, hlast, hreads'''⟩ :=
    exists_reads_propel hsketch hpropel.kind hotherwise hblock'' hsemicolon.kind
  have hall := (((hreads.append (.single hnext)).append hreads').append
    (hreads'' _ hgathered)).append hreads'''
  refine ⟨_, by simpa using hall, ?_⟩
  rw [Statement.Shows]
  exact ⟨word, condition.tree, block.tree, navigate, other.tree, middle.tree, propel,
    last.tree, semicolon, rfl, hshows, hencloses, hshows', hencloses', hlast⟩

end Abstract

namespace Launch

theorem schedules :
    schedule? .primary Guard.unclosed 6 [Kind.launch.sketch, .nonterminal .stmt]
      = some [] ∧
    schedule? .primary Guard.unclosed 6
        [Kind.launch.sketch, .nonterminal .stmt, Kind.whirl.sketch]
      = some [] ∧
    schedule? .primary Guard.unclosed 6
        [Kind.launch.sketch, .nonterminal .stmt, Kind.whirl.sketch,
          .nonterminal .conditionalExp, Kind.semicolon.sketch]
      = some [⟨0, 5, .launchWhirlLoop⟩, ⟨0, 1, .expr⟩] := by
  decide

end Launch

namespace Abstract

theorem Statement.readable_launch
    {position : Position}
    {body : Body}
    {guard : Condition}
    (hbody : body.Readable) :
    (Statement.launch position body guard).Readable := by
  intro tokens hspelt
  rw [Statement.pieces] at hspelt
  obtain ⟨front, ends, rfl, hfront, hends⟩ := spelt_append hspelt
  obtain ⟨head, whirls, rfl, hhead, hwhirls⟩ := spelt_append hfront
  obtain ⟨word, bs, rfl, hword, hblock⟩ := spelt_cons hhead
  obtain ⟨whirl, cs, rfl, hwhirl, hguard⟩ := spelt_cons hwhirls
  obtain ⟨semicolon, rfl, hsemicolon⟩ := spelt_one hends
  have hword' : word.kind = .launch := hword.kind
  have hfirst : Reads Guard.unclosed [] [word] [leaf word] := by
    have hwords : word.kind ∈ Pending.words := by
      rw [hword']
      decide
    exact .single (starts_word hwords).settles
  have hopener : sketch [leaf word] ∈ Opener.all := by
    simp [hword', Opener.all]
  obtain ⟨block, hstmt, hencloses, hreads⟩ := hbody.exists_reads_braced hopener hblock
  have hdone := settles_of_schedule 6 [leaf word, block] [] Guard.unclosed_sketchable
    (by simp [hword', hstmt]) Launch.schedules.1
  have hnext := settles_of_schedule 6 [leaf word, block, leaf whirl] []
    Guard.unclosed_sketchable (by simp [hword', hstmt, hwhirl.kind]) Launch.schedules.2.1
  have hhead : sketch [leaf word, block, leaf whirl] ∈ Head.all := by
    simp [hword', hstmt, hwhirl.kind, Head.all]
  obtain ⟨condition, hcondition, hshows, hreads'⟩ :=
    Condition.exists_reads_behind hhead hguard
  have hlast :
      Settles .primary Guard.unclosed
        [leaf word, block, leaf whirl, condition, leaf semicolon]
        [phrase .expr [phrase .launchWhirlLoop
          [leaf word, block, leaf whirl, condition, leaf semicolon]]] :=
    settles_of_schedule 6 _ [⟨0, 5, .launchWhirlLoop⟩, ⟨0, 1, .expr⟩]
      Guard.unclosed_sketchable
      (by simp [hword', hstmt, hwhirl.kind, hcondition, hsemicolon.kind])
      Launch.schedules.2.2
  have hall := (((hfirst.append (hreads _ hdone)).append (.single hnext)).append
    hreads').append (.single hlast)
  refine ⟨_, by simpa using hall, ?_⟩
  rw [Statement.Shows]
  exact ⟨word, block.tree, whirl, condition.tree, semicolon, rfl, hword.position _ rfl,
    hencloses, hshows⟩

/-! ## Programs -/

mutual

/-- Every statement is readable. -/
theorem Statement.readable :
    ∀ s : Statement, s.Readable
  | .declaration target value => Statement.readable_declaration target value
  | .assignment target value => Statement.readable_assignment target value
  | .transmission argument => Statement.readable_transmission argument
  | .reception target prompt => Statement.readable_reception target prompt
  | .orbit _ body => Statement.readable_orbit body.readable
  | .orbitPropel _ body otherwise => Statement.readable_orbitPropel body.readable otherwise.readable
  | .orbitNavigatePropel _ body _ alternative otherwise =>
      Statement.readable_orbitNavigatePropel body.readable alternative.readable otherwise.readable
  | .whirl _ _ body => Statement.readable_whirl body.readable
  | .launch _ body _ => Statement.readable_launch body.readable

/-- Every item is readable. -/
theorem Item.readable :
    ∀ item : Item, item.Readable
  | .statement s => Item.readable_statement s.readable
  | .arithmetic a => Item.readable_arithmetic a

/-- Every body is readable. -/
theorem Body.readable :
    ∀ b : Body, b.Readable
  | .last item => Body.readable_last item.readable
  | .more item rest => Body.readable_more item.readable rest.readable

end

/-- Items that end with a statement are all gathered when they are read. -/
theorem exists_reads_items
    {before : List Item}
    {last : Statement}
    {tokens : List Token}
    (hspelt : Spelt (before.flatMap Item.pieces ++ last.pieces) tokens) :
    ∃ limbs,
      Reads Guard.unclosed [] tokens limbs ∧
        (∀ limb ∈ limbs, limb.symbol = .nonterminal .expr) ∧
        List.Forall₂ Item.Shows (before ++ [.statement last]) (trees limbs) := by
  induction before generalizing tokens with
  | nil =>
      obtain ⟨inner, hreads, hshows⟩ := last.readable tokens hspelt
      refine ⟨_, hreads, ?_, .cons ?_ .nil⟩
      · intro limb hlimb
        rw [List.mem_singleton.1 hlimb]
        rfl
      · exact ⟨inner.tree, rfl, hshows⟩
  | cons item before ih =>
      rw [List.flatMap_cons, List.append_assoc] at hspelt
      obtain ⟨us, vs, rfl, hus, hvs⟩ := spelt_append hspelt
      obtain ⟨limbs, hreads, hrests⟩ := item.readable us hus
      obtain ⟨others, hreads', hothers, hshow⟩ := ih hvs
      have hstarts : StartsItem (before.flatMap Item.pieces ++ last.pieces) := by
        cases before with
        | nil =>
            exact last.startsItem
        | cons next before =>
            rw [List.flatMap_cons, List.append_assoc]
            exact next.startsItem.append _
      obtain ⟨token, first, more, rfl, hfirst⟩ := hstarts.exists_starts hvs
      obtain ⟨gathered, hform, hshows, hnext⟩ := hrests.exists_reads_next
      refine ⟨gathered :: others, hreads.append (hnext token first more _ hfirst hreads'),
        ?_, .cons hshows hshow⟩
      intro limb hlimb
      rcases List.mem_cons.1 hlimb with rfl | hlimb
      · exact hform
      · exact hothers limb hlimb

end Abstract
end CometLang
