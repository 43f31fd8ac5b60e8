/-
**Cardinalities: how many of some handles are true.**

Rules say what they mean by cardinalities. The functions that make one (`Cardinality.atLeastOneOf`
and its companions) take handles on any choices, replace each by the handle on its root, and fold
in those whose root is not registered as false (`Cardinality.fold`). What is left names registered
roots only, each handle once.

The counts asked for are checked against the number of handles given: a cardinality that asks for
more, or for a range upside down, is a `DefinitionError` of its rule.
-/

import Loadout.Engine.Error

namespace Loadout

/-- From `least` to `most` of the handles are true. -/
structure Cardinality where
  handles : List Handle
  least : Nat
  most : Nat
deriving DecidableEq, Repr, Inhabited

namespace Cardinality

/-- The cardinality that no assignment satisfies. -/
def contradiction : Cardinality :=
  ⟨[], 1, 0⟩

/-- Whether the number of true handles lies in the range, given the value of every root. -/
def holds (value : ChoiceId → Bool) (cardinality : Cardinality) : Bool :=
  let count := (cardinality.handles.filter (Handle.holds value)).length
  cardinality.least ≤ count && count ≤ cardinality.most

/-- The handles on registered roots, each once in the order of their first occurrence, and how
many handles are true because their root is not registered. -/
def sort (table : ChoiceTable) (handles : List Handle) : List Handle × Nat :=
  handles.foldl
    (fun (kept, fixed) handle =>
      let handle := table.resolve handle
      if !table.contains handle.choice then
        (kept, if handle.negated then fixed + 1 else fixed)
      else if kept.contains handle then (kept, fixed)
      else (kept ++ [handle], fixed))
    ([], 0)

/-- The cardinality of some handles, those without a registered root being false. -/
def fold (table : ChoiceTable) (handles : List Handle) (least most : Nat) : Cardinality :=
  let (kept, fixed) := sort table handles
  if most < fixed then contradiction else ⟨kept, least - fixed, most - fixed⟩

/-! ### The cardinalities that rules ask for -/

/-- Refuses to ask for more choices than are named. -/
def checkCount (rule : RuleId) (count : Nat) (handles : List Handle) :
    Except DefinitionError Unit :=
  if handles.length < count then .error (.cardinalityTooLarge rule count handles.length)
  else .ok ()

variable (table : ChoiceTable) (rule : RuleId)

/-- At least one of the handles is true. -/
def atLeastOneOf (handles : List Handle) : Except DefinitionError Cardinality :=
  if handles.isEmpty then .error (.emptyClause rule)
  else .ok (fold table handles 1 handles.length)

/-- At least a number of the handles are true. -/
def atLeast (count : Nat) (handles : List Handle) : Except DefinitionError Cardinality := do
  checkCount rule count handles
  return fold table handles count handles.length

/-- At most a number of the handles are true. -/
def atMost (count : Nat) (handles : List Handle) : Except DefinitionError Cardinality := do
  checkCount rule count handles
  return fold table handles 0 count

/-- Just a number of the handles are true. -/
def exactly (count : Nat) (handles : List Handle) : Except DefinitionError Cardinality := do
  checkCount rule count handles
  return fold table handles count count

/-- From one number to another of the handles are true. -/
def between (least most : Nat) (handles : List Handle) : Except DefinitionError Cardinality := do
  if most < least then throw (.invertedRange rule least most)
  checkCount rule least handles
  return fold table handles least (min most handles.length)

end Cardinality

end Loadout
