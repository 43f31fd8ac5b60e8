/-
**Cardinalities as bounded sums over numbered variables.**

A `Numbering` gives every registered root a variable, in ascending order of the choices. A
cardinality becomes at most two bounded sums (`Numbering.encode`): not too many of its handles are
true, and not too many of their opposites. A bounded sum can be put under a guard
(`AtMost.guarded`), so that it only has to hold where the guard is true.
-/

import Loadout.Engine.Cardinality
import Loadout.Search.AtMost

namespace Loadout

/-- The bounded sum under a guard: where the guard is false, it always holds. There is none when
the sum can never exceed its bound. -/
def AtMost.guarded (guard : Literal) (constraint : AtMost) : Option AtMost :=
  let greatest := (constraint.terms.map fun term => max term.1 0).sum
  let slack := greatest - constraint.bound
  if slack ≤ 0 then none else some ⟨constraint.terms ++ [(slack, guard)], greatest⟩

/-- The variables of the registered roots. -/
structure Numbering where
  /-- The variable of each choice by number; aliases and removed choices have none. -/
  atoms : Array (Option Nat)
  /-- How many variables there are; they are numbered from one. -/
  count : Nat
deriving DecidableEq, Repr, Inhabited

namespace Numbering

/-- Gives the next choice a variable if it is a registered root. -/
def extend (numbering : Numbering) (entry : ChoiceEntry) : Numbering :=
  if entry.registered && !entry.choice.isAlias then
    ⟨numbering.atoms.push (some (numbering.count + 1)), numbering.count + 1⟩
  else { numbering with atoms := numbering.atoms.push none }

/-- The variables of the registered roots of a table. -/
def ofTable (table : ChoiceTable) : Numbering :=
  table.entries.toList.foldl extend ⟨#[], 0⟩

/-- The variable of a choice. -/
def atom? (numbering : Numbering) (id : ChoiceId) : Option Nat :=
  (numbering.atoms[id]?).join

/-- The literal that is true with a handle on a root. -/
def literal (numbering : Numbering) (handle : Handle) : Except DefinitionError Literal :=
  match numbering.atom? handle.choice with
  | some atom => .ok ⟨atom, !handle.negated⟩
  | none => .error (.unknownChoice handle.choice)

/-- The value of a registered choice in a model: that of its root. -/
def value (numbering : Numbering) (table : ChoiceTable) (model : Array Bool) (id : ChoiceId) :
    Bool :=
  ((numbering.atom? (table.root id)).bind fun atom => model[atom]?).getD false

/-- The bounded sums that say the same as a cardinality. -/
def encode (numbering : Numbering) (cardinality : Cardinality) :
    Except DefinitionError (List AtMost) := do
  let literals ← cardinality.handles.mapM numbering.literal
  let count := literals.length
  let upper : List AtMost :=
    if cardinality.most < count then [⟨literals.map fun literal => (1, literal), cardinality.most⟩]
    else []
  let lower : List AtMost :=
    if 0 < cardinality.least then
      [⟨literals.map fun literal => (1, -literal), (count : Int) - cardinality.least⟩]
    else []
  return upper ++ lower

/-- The bounded sums that say the same as some cardinalities together. -/
def encodeAll (numbering : Numbering) (cardinalities : List Cardinality) :
    Except DefinitionError (List AtMost) := do
  return (← cardinalities.mapM numbering.encode).flatten

/-- The weights of the registered choices on the literals of their roots; choices of weight zero
have no term, and neither have aliases of what is not registered. -/
def objective (numbering : Numbering) (table : ChoiceTable) : List (Int × Literal) :=
  table.toList.filterMap fun (id, entry) =>
    if entry.weight = 0 then none
    else
      match numbering.literal (.ofChoice (table.root id)) with
      | .ok literal => some (entry.weight, literal)
      | .error _ => none

end Numbering

end Loadout
