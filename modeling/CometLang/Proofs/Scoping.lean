import CometLang.Proofs.Meaning

/-!
# Programs that are well scoped

One pass over a program tells whether its names are used where they are
declared. The pass keeps a set of names for every block it stands in, the
innermost first. It looks at every branch and at every body once, whatever a run
of the program would do.

* A name that is read or written must be in one of the sets.
* A declaration adds its name to the innermost set, in which the name must not
  be yet; its value is looked at before that.
* A body starts with an empty set of its own, which is dropped at its end.
* A guard is looked at in the sets around the body, also if it stands behind it.
-/

namespace CometLang
namespace Abstract

/-- The name is in one of the sets. -/
def Name.isVisible
    (sets : List (List String))
    (n : Name) : Bool :=
  sets.any (·.contains n.text)

def Operand.isScoped
    (sets : List (List String)) :
    Operand → Bool
  | name n => n.isVisible sets
  | literal _ _ => true

def Arithmetic.isScoped
    (sets : List (List String))
    (a : Arithmetic) : Bool :=
  a.first.isScoped sets && (a.second :: a.more).all (·.operand.isScoped sets)

def Value.isScoped
    (sets : List (List String)) :
    Value → Bool
  | operand o => o.isScoped sets
  | arithmetic a => a.isScoped sets

def Comparison.isScoped
    (sets : List (List String))
    (c : Comparison) : Bool :=
  c.left.isScoped sets && c.right.isScoped sets

def Condition.isScoped
    (sets : List (List String))
    (c : Condition) : Bool :=
  c.first.isScoped sets && c.links.all (·.comparison.isScoped sets)

def Argument.isScoped
    (sets : List (List String)) :
    Argument → Bool
  | text _ => true
  | name n => n.isVisible sets

mutual

/-- The innermost set behind a statement, if the statement is well scoped. -/
def Statement.scope?
    (outer : List (List String))
    (names : List String) :
    Statement → Option (List String)
  | .declaration target value =>
      if value.isScoped (names :: outer) ∧ target.text ∉ names then
        some (target.text :: names)
      else
        none
  | .assignment target value =>
      if target.isVisible (names :: outer) ∧ value.isScoped (names :: outer) then
        some names
      else
        none
  | .transmission argument =>
      if argument.isScoped (names :: outer) then
        some names
      else
        none
  | .reception target prompt =>
      if target.isVisible (names :: outer) ∧ prompt.isScoped (names :: outer) then
        some names
      else
        none
  | .orbit guard body =>
      if guard.isScoped (names :: outer) ∧ (body.scope? (names :: outer) []).isSome then
        some names
      else
        none
  | .orbitPropel guard body otherwise =>
      if guard.isScoped (names :: outer) ∧ (body.scope? (names :: outer) []).isSome ∧
          (otherwise.scope? (names :: outer) []).isSome then
        some names
      else
        none
  | .orbitNavigatePropel guard body second alternative otherwise =>
      if guard.isScoped (names :: outer) ∧ (body.scope? (names :: outer) []).isSome ∧
          second.isScoped (names :: outer) ∧
          (alternative.scope? (names :: outer) []).isSome ∧
          (otherwise.scope? (names :: outer) []).isSome then
        some names
      else
        none
  | .whirl _ guard body =>
      if guard.isScoped (names :: outer) ∧ (body.scope? (names :: outer) []).isSome then
        some names
      else
        none
  | .launch _ body guard =>
      if (body.scope? (names :: outer) []).isSome ∧ guard.isScoped (names :: outer) then
        some names
      else
        none

def Item.scope?
    (outer : List (List String))
    (names : List String) :
    Item → Option (List String)
  | .statement s => s.scope? outer names
  | .arithmetic a => if a.isScoped (names :: outer) then some names else none

def Body.scope?
    (outer : List (List String))
    (names : List String) :
    Body → Option (List String)
  | .last item => item.scope? outer names
  | .more item rest => (item.scope? outer names).bind fun names' => rest.scope? outer names'

end

/-- The pass over the whole program succeeds. -/
def Program.isWellScoped : Program → Bool
  | empty => true
  | items before last =>
      ((before.foldlM (fun names (item : Item) => item.scope? [] names) []).bind
        fun names => last.scope? [] names).isSome
  | arithmetic a => a.isScoped [[]]

end Abstract
end CometLang
