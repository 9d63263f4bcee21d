import CometLang.Proofs.ExpressionMeaning
import CometLang.Proofs.Simulation

/-!
# Runs of trees and the meaning of programs

A tree that shows an abstract phrase is run to the effect that the phrase means.
Statements find their parts by the labels of their children; here it is seen
that these are the parts that the statement was spelt with, so that no run ends
because a part is missing.
-/

namespace CometLang

open Abstract Change Evaluation

/-! ## Labels of trees -/

namespace Tree

@[simp] theorem form?_leaf
    (token : Token) :
    (leaf token).form? = none :=
  rfl

@[simp] theorem token?_leaf
    (token : Token) :
    (leaf token).token? = some token :=
  rfl

@[simp] theorem form?_node
    (form : Nonterminal)
    (children : List Tree) :
    (node (.nonterminal form) children).form? = some form :=
  rfl

@[simp] theorem token?_node
    (form : Nonterminal)
    (children : List Tree) :
    (node (.nonterminal form) children).token? = none :=
  rfl

/-- The first child of a form is sought from left to right. -/
@[simp] theorem child?_cons
    (label : Label)
    (t : Tree)
    (rest : List Tree)
    (form : Nonterminal) :
    (node label (t :: rest)).child? form
      = if t.form? = some form then some t else (node label rest).child? form := by
  by_cases h : t.form? = some form
  · simp [child?, children, isForm, h]
  · simp [child?, children, isForm, h]

@[simp] theorem child?_nil
    (label : Label)
    (form : Nonterminal) :
    (node label []).child? form = none :=
  rfl

end Tree

/-! ## Strings -/

/-- The stretches between separators hold what is no separator, in order. -/
theorem flatten_splitOnP
    {α : Type}
    (p : α → Bool)
    (xs : List α) :
    (xs.splitOnP p).flatten = xs.filter (!p ·) := by
  induction xs with
  | nil =>
      rfl
  | cons x xs ih =>
      obtain ⟨stretch, others, hstretches⟩ :=
        List.exists_cons_of_ne_nil (List.splitOnP_ne_nil p xs)
      rw [hstretches] at ih
      rw [List.splitOnP_cons_eq_if_modifyHead, hstretches, List.filter_cons, ← ih]
      cases p x <;> rfl

/-- What a string token stands for is the string without its quotes. -/
theorem Token.text_eq_unquoted
    {token : Token}
    (hkind : token.kind = .string) :
    token.text = unquoted token.value := by
  rw [text, hkind, unquoted, List.splitOn, flatten_splitOnP]
  rfl

namespace Abstract

theorem Name.Shows.form
    {n : Name}
    {t : Tree}
    (h : n.Shows t) :
    t.form? = some .identifier := by
  obtain ⟨token, -, rfl⟩ := h
  rfl

theorem Condition.Shows.form
    {c : Condition}
    {t : Tree}
    (h : c.Shows t) :
    t.form? = some .conditionalExp := by
  obtain ⟨opening, inner, closing, rfl, -⟩ := h
  rfl

theorem Argument.Shows.form
    {a : Argument}
    {t : Tree}
    (h : a.Shows t) :
    t.form? = some .ioStmt := by
  obtain ⟨opening, inner, closing, semicolon, rfl, -⟩ := h
  rfl

theorem Encloses.form
    {inside : List Tree → Prop}
    {t : Tree}
    (h : Encloses inside t) :
    t.form? = some .stmt := by
  obtain ⟨opening, trees, closing, rfl, -⟩ := h
  rfl

end Abstract

namespace Change

/-- What is made of what was looked at can as well be looked at. -/
theorem look_map
    {α β : Type}
    (read : List Frame → Except Fault α)
    (f : α → β) :
    (look fun frames => do
      let a ← read frames
      return f a) = do
        let a ← look read
        return f a := by
  funext w
  change _ = EStateM.bind (look read) (fun a => pure (f a)) w
  rw [EStateM.bind, look, look]
  cases read w.frames <;> rfl

end Change

namespace Machine

open Action

variable {t : Tree}

/-! ## Parts of statements -/

@[simp] theorem ofExcept_ok
    {α : Type}
    (a : α) :
    Action.ofExcept (.ok a) = pure a :=
  rfl

theorem partOf_of_child
    {form : Nonterminal}
    (child : Tree)
    (h : t.child? form = some child)
    (part : String) :
    partOf t form part = .ok child := by
  rw [partOf, h]

theorem guardOf_of_children
    (guard body : Tree)
    (hguard : t.child? .conditionalExp = some guard)
    (hbody : t.child? .stmt = some body) :
    guardOf t = .ok guard := by
  rw [guardOf, partOf_of_child guard hguard, partOf_of_child body hbody]
  rfl

theorem bindingParts_of_children
    (token : Token)
    (right : Tree)
    (hname : t.child? .identifier = some (.node (.nonterminal .identifier) [.leaf token]))
    (hright : assignedChild? t = some right) :
    bindingParts t = .ok (token, right) := by
  rw [bindingParts, partOf_of_child _ hname, hright]
  rfl

/-- The steps of a computation are only reported. -/
theorem simulates_arithmeticValue
    {a : Arithmetic}
    (h : a.Shows t) :
    Simulates id (arithmeticValue t) (look a.value) := by
  intro m
  have hreported (steps : List Step) (m : Machine) :
      (steps.foldl (fun m step => m.note (.computed step)) m).visible = m.visible := by
    induction steps generalizing m with
    | nil =>
        rfl
    | cons step steps ih =>
        exact ih _
  have hvalue : (compute t m.scopes).2 = a.value m.visible.frames := compute_eq h m.scopes
  rw [arithmeticValue, look, ← hvalue]
  dsimp only
  cases (compute t m.scopes).2 with
  | ok value =>
      exact congrArg (EStateM.Result.ok value) (hreported _ m)
  | error fault =>
      exact congrArg (EStateM.Result.error fault) (hreported _ m)

theorem simulates_identifierText
    {n : Name}
    (h : n.Shows t) :
    Simulates id (identifierText t) (look n.value) := by
  obtain ⟨token, hmatches, rfl⟩ := h
  rw [identifierText, leafToken_node, ofExcept_ok, pure_bind]
  exact Simulates.ofScopes (resolve_eq hmatches)

theorem simulates_valueText
    {value : Value}
    (h : value.Shows t) :
    Simulates id (valueText t) (look fun frames => value.text frames) := by
  cases value with
  | operand o =>
      cases o with
      | name n =>
          have hform : t.form? = some .identifier := Name.Shows.form h
          rw [valueText, hform]
          exact simulates_identifierText h
      | literal text position =>
          obtain ⟨token, hmatches, rfl⟩ := h
          have htext : token.value = text := hmatches.value _ rfl
          change Simulates id (do
            let token ← Action.ofExcept (leafToken _)
            return token.value) _
          rw [leafToken_node, ofExcept_ok, pure_bind, htext]
          exact Simulates.pure id text
  | arithmetic a =>
      have hform : t.form? = some .arithExp := by
        obtain ⟨children, rfl, -⟩ := h
        rfl
      rw [valueText, hform]
      simp only [Value.text, look_map]
      exact (simulates_arithmeticValue h).bind fun value => Simulates.pure id _

/-- What is in the parentheses is found, and it stands for its contents. -/
theorem exists_argumentText
    {a : Argument}
    (h : a.Shows t) :
    ∃ contents : Action String,
      argumentText? t = some <$> contents ∧
        Simulates id contents (look fun frames => a.contents frames) := by
  obtain ⟨opening, inner, closing, semicolon, rfl, hinner⟩ := h
  cases a with
  | text quoted =>
      obtain ⟨token, hmatches, rfl⟩ := hinner
      have hvalue : token.value = quoted := hmatches.value _ rfl
      have htext : token.text = unquoted quoted := by
        rw [Token.text_eq_unquoted hmatches.kind, hvalue]
      refine ⟨pure (unquoted quoted), ?_, Simulates.pure id _⟩
      simp [argumentText?, Argument.form, htext]
  | name n =>
      have hform : inner.form? = some .identifier := Name.Shows.form hinner
      refine ⟨identifierText inner, ?_, simulates_identifierText hinner⟩
      simp [argumentText?, hform]

/-! ## Blocks -/

variable {settings : Settings}

theorem runAll_append
    (as bs : List Tree) :
    runAll settings (as ++ bs)
      = runAll settings as >>= fun _ => runAll settings bs := by
  induction as with
  | nil =>
      rw [List.nil_append, runAll, pure_bind]
  | cons a as ih =>
      rw [List.cons_append, runAll, runAll, ih, bind_assoc]

/-- The braces around a block do nothing. -/
theorem runAll_braced
    (opening closing : Token)
    (trees : List Tree) :
    runAll settings (.leaf opening :: (trees ++ [.leaf closing])) = runAll settings trees := by
  have hbrace (token : Token) : run settings (.leaf token) = pure () := by
    rw [Tree.leaf, run]
  simp [runAll, runAll_append, hbrace]

theorem runBody_cons
    (t : Tree)
    (rest : List Tree) :
    runBody settings (t :: rest)
      = if t.form? = some .stmt then runAll settings t.children else runBody settings rest := by
  obtain ⟨label, children⟩ := t
  rw [runBody]
  cases label <;> simp [Tree.form?, Tree.label, Label.form?, Tree.children]

theorem runBranch_cons
    (form : Nonterminal)
    (t : Tree)
    (rest : List Tree) :
    runBranch settings form (t :: rest)
      = if t.form? = some form then runBody settings t.children
        else runBranch settings form rest := by
  obtain ⟨label, children⟩ := t
  rw [runBranch]
  cases label <;> simp [Tree.form?, Tree.label, Label.form?, Tree.children]

theorem simulates_holds
    {guard : Condition}
    (h : guard.Shows t) :
    Simulates id (holds t) (look guard.truth) :=
  Simulates.ofScopes (condition_eq h)

end Machine

namespace Abstract

open Action Machine

/-- Whatever shows the statement runs to its effect. -/
def Statement.Runs
    (settings : Settings)
    (s : Statement) : Prop :=
  ∀ t, s.Shows t → Simulates id (run settings t) (s.effect settings)

/-- Whatever shows the item runs to its effect. -/
def Item.Runs
    (settings : Settings)
    (item : Item) : Prop :=
  ∀ t, item.Shows t → Simulates id (run settings t) (item.effect settings)

/-- Whatever shows the body runs to its effect. -/
def Body.Runs
    (settings : Settings)
    (body : Body) : Prop :=
  ∀ trees, body.Show trees → Simulates id (runAll settings trees) (body.effect settings)

variable {settings : Settings}

/-- A block runs to the effect of the body in its braces. -/
theorem Body.Runs.enclosed
    {body : Body}
    {block : Tree}
    (h : body.Runs settings)
    (hblock : Encloses body.Show block) :
    Simulates id (runAll settings block.children) (body.effect settings) := by
  obtain ⟨opening, trees, closing, rfl, hshow⟩ := hblock
  rw [Tree.children, runAll_braced]
  exact h trees hshow

/-! ## Simple statements -/

theorem Statement.runs_declaration
    {target : Name}
    {value : Value} :
    (Statement.declaration target value).Runs settings := by
  intro t h
  obtain ⟨comet, name, sign, right, semicolon, rfl, hcomet, hsign, ⟨token, hmatches, rfl⟩,
    hright⟩ := h
  have hassigned : assignedChild? (.node (.nonterminal .decStmt)
      [.leaf comet, .node (.nonterminal .identifier) [.leaf token], .leaf sign, right,
        .leaf semicolon]) = some right := by
    simp [assignedChild?, Tree.children, List.dropWhile_cons, hcomet, hsign]
  change Simulates id (runDeclaration _) _
  rw [runDeclaration, bindingParts_of_children token right (by simp) hassigned, ofExcept_ok,
    pure_bind]
  refine (simulates_valueText hright).bind fun text => ?_
  refine (Simulates.declare hmatches text).bind fun _ => ?_
  exact (Simulates.record hmatches text).then_note fun _ => .declared token.value text

theorem Statement.runs_assignment
    {target : Name}
    {value : Value} :
    (Statement.assignment target value).Runs settings := by
  intro t h
  obtain ⟨name, sign, right, semicolon, rfl, hsign, ⟨token, hmatches, rfl⟩, hright⟩ := h
  have hassigned : assignedChild? (.node (.nonterminal .assignStmt)
      [.node (.nonterminal .identifier) [.leaf token], .leaf sign, right, .leaf semicolon])
        = some right := by
    simp [assignedChild?, Tree.children, List.dropWhile_cons, hsign]
  change Simulates id (runAssignment _) _
  rw [runAssignment, bindingParts_of_children token right (by simp) hassigned, ofExcept_ok,
    pure_bind]
  refine (simulates_valueText hright).bind fun text => ?_
  refine (Simulates.assign hmatches text).bind fun _ => ?_
  exact (Simulates.record hmatches text).then_note fun _ => .assigned token.value text

theorem Statement.runs_transmission
    {argument : Argument} :
    (Statement.transmission argument).Runs settings := by
  intro t h
  obtain ⟨word, io, rfl, hargument⟩ := h
  obtain ⟨contents, htext, hcontents⟩ := exists_argumentText hargument
  have hio := hargument.form
  change Simulates id (runTransmission settings _) _
  rw [runTransmission, partOf_of_child io (by simp [hio]), ofExcept_ok, pure_bind, htext,
    bind_map_left]
  exact hcontents.bind fun text => Simulates.write settings (text ++ "\n") Position.unknown

theorem Statement.runs_reception
    {target : Name}
    {prompt : Argument} :
    (Statement.reception target prompt).Runs settings := by
  intro t h
  obtain ⟨name, sign, word, io, rfl, htarget, hprompt⟩ := h
  obtain ⟨contents, htext, hcontents⟩ := exists_argumentText hprompt
  have hname := htarget.form
  have hio := hprompt.form
  obtain ⟨token, hmatches, hleaf⟩ := htarget
  have htoken : leafToken name = .ok token := by
    rw [hleaf, leafToken_node]
  have hposition : token.position = target.position := hmatches.position _ rfl
  change Simulates id (runReception settings _) (receiveInto settings target prompt)
  rw [runReception, partOf_of_child name (by simp [hname]), receiveInto, ofExcept_ok, pure_bind,
    htoken, ofExcept_ok, pure_bind]
  refine (Simulates.ofScopes (resolve_eq hmatches)).bind fun _ => ?_
  rw [partOf_of_child io (by simp [hname, hio]), ofExcept_ok, pure_bind, htext, bind_map_left,
    ← hposition]
  refine hcontents.bind fun question => ?_
  refine (Simulates.write settings question token.position).bind fun _ => ?_
  refine (Simulates.flush settings token.position).bind fun _ => ?_
  refine (Simulates.readLine token.position).bind fun line => ?_
  dsimp only [id]
  split
  · refine (Simulates.assign hmatches _).bind fun _ => ?_
    exact (Simulates.record hmatches _).then_note fun _ => .received token.value _
  · exact Simulates.throw id _

/-! ## Cascades and loops -/

/-- A guarded branch: its block runs if the guard holds, and else the rest. -/
theorem simulates_guarded
    {guard : Condition}
    {t condition : Tree}
    {action rest : Action Unit}
    {effect effect' : Change Unit}
    (block : Tree)
    (hguard : guard.Shows condition)
    (hcondition : t.child? .conditionalExp = some condition)
    (hblock : t.child? .stmt = some block)
    (haction : Simulates id action effect)
    (hrest : Simulates id rest effect') :
    Simulates id
      (do
        let guard ← Action.ofExcept (guardOf t)
        if ← holds guard then
          Action.inFrame action
        else
          rest)
      (do
        if ← look guard.truth then
          inBlock effect
        else
          effect') := by
  rw [guardOf_of_children condition block hcondition hblock, ofExcept_ok, pure_bind]
  refine (simulates_holds hguard).bind fun holds => ?_
  cases holds with
  | true =>
      exact haction.inFrame
  | false =>
      exact hrest

/-- The last branch is found, and its block runs. -/
theorem simulates_propel
    {t : Tree}
    {action : Action Unit}
    {effect : Change Unit}
    (branch block : Tree)
    (hbranch : t.child? .propelStmt = some branch)
    (hblock : branch.child? .stmt = some block)
    (haction : Simulates id action effect) :
    Simulates id (runPropel t action) (inBlock effect) := by
  rw [runPropel, hbranch]
  dsimp only
  rw [partOf_of_child block hblock, ofExcept_ok, pure_bind]
  exact haction.inFrame

theorem Statement.runs_orbit
    {guard : Condition}
    {body : Body}
    (hbody : body.Runs settings) :
    (Statement.orbit guard body).Runs settings := by
  intro t h
  obtain ⟨word, condition, block, semicolon, rfl, hguard, hblock⟩ := h
  have hcondition := hguard.form
  have hstmt := hblock.form
  change Simulates id (runOrbit _ _ _ _) _
  rw [runOrbit]
  refine simulates_guarded block hguard (by simp [hcondition]) (by simp [hcondition, hstmt])
    ?_ ?_
  · simpa [runBody_cons, hcondition, hstmt] using hbody.enclosed hblock
  · simpa [runPropel, hcondition, hstmt] using Simulates.pure id ()

theorem Statement.runs_orbitPropel
    {guard : Condition}
    {body otherwise : Body}
    (hbody : body.Runs settings)
    (hotherwise : otherwise.Runs settings) :
    (Statement.orbitPropel guard body otherwise).Runs settings := by
  intro t h
  obtain ⟨word, condition, block, propel, last, semicolon, rfl, hguard, hblock, hlast⟩ := h
  have hcondition := hguard.form
  have hstmt := hblock.form
  have hstmt' := hlast.form
  change Simulates id (runOrbit _ _ _ _) _
  rw [runOrbit]
  refine simulates_guarded block hguard (by simp [hcondition]) (by simp [hcondition, hstmt])
    ?_ ?_
  · simpa [runBody_cons, hcondition, hstmt] using hbody.enclosed hblock
  · simp only [Tree.child?_cons, Tree.child?_nil, Tree.form?_leaf, Tree.form?_node, hcondition,
      hstmt]
    refine simulates_propel (.node (.nonterminal .propelStmt) [.leaf propel, last]) last
      (by simp [hcondition, hstmt]) (by simp [hstmt']) ?_
    simpa [runBranch_cons, runBody_cons, Tree.children, hcondition, hstmt, hstmt']
      using hotherwise.enclosed hlast

theorem Statement.runs_orbitNavigatePropel
    {guard second : Condition}
    {body alternative otherwise : Body}
    (hbody : body.Runs settings)
    (halternative : alternative.Runs settings)
    (hotherwise : otherwise.Runs settings) :
    (Statement.orbitNavigatePropel guard body second alternative otherwise).Runs settings := by
  intro t h
  obtain ⟨word, condition, block, navigate, other, middle, propel, last, semicolon, rfl, hguard,
    hblock, hsecond, hmiddle, hlast⟩ := h
  have hcondition := hguard.form
  have hcondition' := hsecond.form
  have hstmt := hblock.form
  have hstmt' := hmiddle.form
  have hstmt'' := hlast.form
  change Simulates id (runOrbit _ _ _ _) _
  rw [runOrbit]
  refine simulates_guarded block hguard (by simp [hcondition]) (by simp [hcondition, hstmt])
    ?_ ?_
  · simpa [runBody_cons, hcondition, hstmt] using hbody.enclosed hblock
  · simp only [Tree.child?_cons, Tree.child?_nil, Tree.form?_leaf, Tree.form?_node, hcondition,
      hstmt]
    refine simulates_guarded middle hsecond (by simp [hcondition'])
      (by simp [hcondition', hstmt']) ?_ ?_
    · simpa [runBranch_cons, runBody_cons, Tree.children, hcondition, hcondition', hstmt, hstmt']
        using halternative.enclosed hmiddle
    · refine simulates_propel (.node (.nonterminal .propelStmt) [.leaf propel, last]) last
        (by simp [hcondition, hstmt]) (by simp [hstmt'']) ?_
      simpa [runBranch_cons, runBody_cons, Tree.children, hcondition, hstmt, hstmt'']
        using hotherwise.enclosed hlast

theorem Statement.runs_whirl
    {position : Position}
    {guard : Condition}
    {body : Body}
    (hbody : body.Runs settings) :
    (Statement.whirl position guard body).Runs settings := by
  intro t h
  obtain ⟨word, condition, block, semicolon, rfl, hposition, hguard, hblock⟩ := h
  have hcondition := hguard.form
  have hstmt := hblock.form
  have hfault :
      tooManyIterations settings (.node (.nonterminal .whirlLoop)
        [.leaf word, condition, block, .leaf semicolon]) = excess settings position := by
    rw [← hposition]
    rfl
  change Simulates id (runWhirl settings _ _) (whileHolds _ _ _ _)
  rw [runWhirl, guardOf_of_children condition block (by simp [hcondition])
    (by simp [hcondition, hstmt]), ofExcept_ok, pure_bind, hfault]
  have hbody' := hbody.enclosed hblock
  have hloop := Simulates.repeatWhile (excess settings position) (simulates_holds hguard) hbody'
    settings.maxIterations
  simpa [runBody_cons, hcondition, hstmt] using hloop.then_note fun left =>
    .whirled (settings.maxIterations - left)

theorem Statement.runs_launch
    {position : Position}
    {body : Body}
    {guard : Condition}
    (hbody : body.Runs settings) :
    (Statement.launch position body guard).Runs settings := by
  intro t h
  obtain ⟨word, block, whirl, condition, semicolon, rfl, hposition, hblock, hguard⟩ := h
  have hcondition := hguard.form
  have hstmt := hblock.form
  have hfault :
      tooManyIterations settings (.node (.nonterminal .launchWhirlLoop)
        [.leaf word, block, .leaf whirl, condition, .leaf semicolon])
        = excess settings position := by
    rw [← hposition]
    rfl
  change Simulates id (runLaunch settings _ _) (untilFails _ _ _ _)
  rw [runLaunch, guardOf_of_children condition block (by simp [hcondition, hstmt])
    (by simp [hstmt]), ofExcept_ok, pure_bind, hfault]
  have hloop := Simulates.repeatUntil (excess settings position) (simulates_holds hguard)
    (hbody.enclosed hblock) settings.maxIterations
  simpa [runBody_cons, hcondition, hstmt] using hloop.then_note fun left =>
    .launched (settings.maxIterations - left)

/-! ## Programs -/

/-- A phrase that only groups runs as what is in it. -/
theorem run_expr
    (inner : Tree) :
    run settings (.node (.nonterminal .expr) [inner]) = run settings inner := by
  simp [run, runAll]

theorem Arithmetic.runs
    {a : Arithmetic}
    {t : Tree}
    (h : a.Shows t) :
    Simulates id (run settings t) (do
      let _ ← look a.value) := by
  have hvalue := simulates_arithmeticValue h
  obtain ⟨children, rfl, -⟩ := h
  rw [run]
  exact hvalue.bind fun value => Simulates.note (.discarded value)

mutual

theorem Statement.runs :
    ∀ s : Statement, s.Runs settings
  | .declaration _ _ => Statement.runs_declaration
  | .assignment _ _ => Statement.runs_assignment
  | .transmission _ => Statement.runs_transmission
  | .reception _ _ => Statement.runs_reception
  | .orbit _ body => Statement.runs_orbit body.runs
  | .orbitPropel _ body otherwise => Statement.runs_orbitPropel body.runs otherwise.runs
  | .orbitNavigatePropel _ body _ alternative otherwise =>
      Statement.runs_orbitNavigatePropel body.runs alternative.runs otherwise.runs
  | .whirl _ _ body => Statement.runs_whirl body.runs
  | .launch _ body _ => Statement.runs_launch body.runs

theorem Item.runs :
    ∀ item : Item, item.Runs settings
  | .statement s => by
      rintro t ⟨inner, rfl, hshows⟩
      rw [run_expr]
      exact s.runs inner hshows
  | .arithmetic a => by
      rintro t ⟨inner, rfl, hshows⟩
      rw [run_expr]
      exact Arithmetic.runs hshows

theorem Body.runs :
    ∀ body : Body, body.Runs settings
  | .last item => by
      rintro trees ⟨t, rfl, hshows⟩
      simpa [runAll, Body.effect] using item.runs t hshows
  | .more item rest => by
      rintro trees ⟨t, others, rfl, hshows, hshow⟩
      exact (item.runs t hshows).bind fun _ => rest.runs others hshow

end

/-- Items that end with a statement run one after the other. -/
theorem simulates_items
    {before : List Item}
    {last : Statement}
    {trees : List Tree}
    (h : List.Forall₂ Item.Shows (before ++ [.statement last]) trees) :
    Simulates id (runAll settings trees) (do
      before.forM (·.effect settings)
      last.effect settings) := by
  induction before generalizing trees with
  | nil =>
      obtain ⟨t, rest, ht, hrest, rfl⟩ := List.forall₂_cons_left_iff.1 h
      obtain rfl := List.forall₂_nil_left_iff.1 hrest
      simpa [runAll, Item.effect] using (Item.statement last).runs t ht
  | cons item before ih =>
      obtain ⟨t, rest, ht, hrest, rfl⟩ := List.forall₂_cons_left_iff.1 h
      rw [List.forM, bind_assoc]
      exact (item.runs t ht).bind fun _ => ih hrest

/-- The tree of a program runs to the effect that the program means. -/
theorem Program.runs
    {program : Program}
    {trees : List Tree}
    (h : program.Show trees) :
    Simulates id (run settings (.node .program trees)) (program.effect settings) := by
  rw [run]
  cases program with
  | empty =>
      obtain rfl := h
      exact (Simulates.pure id ()).inFrame
  | items before last =>
      exact (simulates_items h).inFrame
  | arithmetic a =>
      obtain ⟨t, rfl, hshows⟩ := h
      have ht : Simulates id (run settings t) _ := Arithmetic.runs hshows
      simpa [runAll, Program.effect] using ht.inFrame

end Abstract
end CometLang
