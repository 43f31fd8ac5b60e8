/-
**Choices: what the engine decides to load or not.**

A `Choice` is a candidate of a mod, an alias by which another choice provides a further mod id, or
a branch that stands for one part of a composite link. The `ChoiceTable` numbers choices in the
order in which they are added; a removed choice keeps its number and its place, but no longer
counts as registered. A `Handle` names a choice or its negation.

An alias has the truth value of its *root*, the choice at the end of its chain of targets
(`ChoiceTable.resolve`). The walk to the root is bounded by the length of the table, reads removed
entries as well, and stops at a number that has no entry.
-/

import Loadout.Version

namespace Loadout

/-- The number of a choice. -/
abbrev ChoiceId := Nat

/-- A choice as texts name it. -/
def ChoiceId.name (choice : ChoiceId) : String :=
  "o" ++ toString (choice : Nat)

/-- A choice or its negation. -/
structure Handle where
  choice : ChoiceId
  negated : Bool
deriving DecidableEq, Repr, Inhabited

namespace Handle

/-- The handle that is true with a choice. -/
def ofChoice (choice : ChoiceId) : Handle :=
  ⟨choice, false⟩

/-- The handle with the opposite truth value. -/
def negate (handle : Handle) : Handle :=
  { handle with negated := !handle.negated }

@[simp] theorem negate_negate (handle : Handle) : handle.negate.negate = handle := by
  cases handle
  simp [negate]

/-- Whether the handle is true, given the value of every choice. -/
def holds (value : ChoiceId → Bool) (handle : Handle) : Bool :=
  value handle.choice != handle.negated

/-- A handle as texts name it. -/
def name (handle : Handle) : String :=
  if handle.negated then "!" ++ ChoiceId.name handle.choice else ChoiceId.name handle.choice

end Handle

/-- What may be loaded. -/
inductive Choice
  /-- A candidate of a mod. -/
  | candidate (modId key : String) (version : Version) (mandatory : Bool)
  /-- A further mod id that the target provides. -/
  | alias (target : ChoiceId) (modId : String) (version : Version)
  /-- A part of a composite link, or an exception from a link. -/
  | branch (label : String)
deriving DecidableEq, Repr, Inhabited

namespace Choice

/-- The mod id that the choice counts as. -/
def modId? : Choice → Option String
  | .candidate modId _ _ _ => some modId
  | .alias _ modId _ => some modId
  | .branch _ => none

/-- The version that the choice counts as. -/
def version? : Choice → Option Version
  | .candidate _ _ version _ => some version
  | .alias _ _ version => some version
  | .branch _ => none

/-- The choice whose truth value an alias has. -/
def target? : Choice → Option ChoiceId
  | .alias target _ _ => some target
  | _ => none

/-- Whether the choice is an alias. -/
def isAlias (choice : Choice) : Bool :=
  choice.target?.isSome

/-- The choice as texts show it: mod id and version, or the label of a branch. -/
def text : Choice → String
  | .candidate modId _ version _ => s!"{modId} {version}"
  | .alias _ modId version => s!"{modId} {version}"
  | .branch label => label

end Choice

/-- A choice in the table. -/
structure ChoiceEntry where
  choice : Choice
  /-- What loading the choice adds to the cost of a solution. -/
  weight : Int
  /-- Whether the choice has not been removed. -/
  registered : Bool
deriving DecidableEq, Repr, Inhabited

/-- All choices, by number. -/
structure ChoiceTable where
  entries : Array ChoiceEntry
deriving DecidableEq, Repr, Inhabited

namespace ChoiceTable

/-- The table without choices. -/
def empty : ChoiceTable :=
  ⟨#[]⟩

/-! ### Registered choices -/

/-- The entry of a registered choice. -/
def registered? (table : ChoiceTable) (id : ChoiceId) : Option ChoiceEntry :=
  (table.entries[id]?).filter ChoiceEntry.registered

/-- Whether a choice is registered. -/
def contains (table : ChoiceTable) (id : ChoiceId) : Bool :=
  (table.registered? id).isSome

/-- The registered choice with a number. -/
def choice? (table : ChoiceTable) (id : ChoiceId) : Option Choice :=
  (table.registered? id).map ChoiceEntry.choice

/-- The weight of a registered choice. -/
def weight? (table : ChoiceTable) (id : ChoiceId) : Option Int :=
  (table.registered? id).map ChoiceEntry.weight

/-- The mod id of a registered choice. -/
def modId? (table : ChoiceTable) (id : ChoiceId) : Option String :=
  (table.choice? id).bind Choice.modId?

/-- The version of a registered choice. -/
def version? (table : ChoiceTable) (id : ChoiceId) : Option Version :=
  (table.choice? id).bind Choice.version?

/-- The entries of the registered choices, in ascending order of their numbers. -/
def toList (table : ChoiceTable) : List (ChoiceId × ChoiceEntry) :=
  (table.entries.toList.zipIdx.filter fun entry => entry.1.registered).map fun entry =>
    (entry.2, entry.1)

/-- The numbers of the registered choices, ascending. -/
def ids (table : ChoiceTable) : List ChoiceId :=
  table.toList.map Prod.fst

/-- How many choices are registered. -/
def size (table : ChoiceTable) : Nat :=
  table.toList.length

/-! ### Changes -/

/-- Adds a choice under the next number. -/
def add (choice : Choice) (weight : Int) (table : ChoiceTable) : ChoiceId × ChoiceTable :=
  (table.entries.size, ⟨table.entries.push ⟨choice, weight, true⟩⟩)

/-- Changes the entry of a registered choice; `none` if the choice is not registered. -/
def change (id : ChoiceId) (edit : ChoiceEntry → ChoiceEntry) (table : ChoiceTable) :
    Option ChoiceTable :=
  (table.registered? id).map fun entry => ⟨table.entries.setIfInBounds id (edit entry)⟩

/-- Removes a registered choice; `none` if it is not registered. -/
def remove (id : ChoiceId) (table : ChoiceTable) : Option ChoiceTable :=
  table.change id fun entry => { entry with registered := false }

/-- Changes the weight of a registered choice; `none` if it is not registered. -/
def setWeight (id : ChoiceId) (weight : Int) (table : ChoiceTable) : Option ChoiceTable :=
  table.change id fun entry => { entry with weight }

/-! ### Aliases -/

/-- The target of an alias in the table, removed or not. -/
def target? (table : ChoiceTable) (id : ChoiceId) : Option ChoiceId :=
  (table.entries[id]?).bind fun entry => entry.choice.target?

/-- Follows at most a number of alias targets. -/
def follow (table : ChoiceTable) : Nat → ChoiceId → ChoiceId
  | 0, id => id
  | steps + 1, id =>
    match table.target? id with
    | some target => follow table steps target
    | none => id

/-- The choice whose truth value a choice has. -/
def root (table : ChoiceTable) (id : ChoiceId) : ChoiceId :=
  table.follow table.entries.size id

/-- The handle on the root, negated alike. -/
def resolve (table : ChoiceTable) (handle : Handle) : Handle :=
  { handle with choice := table.root handle.choice }

/-- Whether a choice is registered and no alias. -/
def isRoot (table : ChoiceTable) (id : ChoiceId) : Bool :=
  match table.choice? id with
  | some choice => !choice.isAlias
  | none => false

/-! ### Names -/

/-- The text of an entry, registered or not; its name where there is no entry. -/
def entryText (table : ChoiceTable) (id : ChoiceId) : String :=
  match table.entries[id]? with
  | some entry => entry.choice.text
  | none => ChoiceId.name id

/-- A choice as explanations name it: an alias with the choice that provides it. -/
def describe (table : ChoiceTable) (id : ChoiceId) : String :=
  match table.target? id with
  | some _ => table.entryText id ++ " (provided by " ++ table.entryText (table.root id) ++ ")"
  | none => table.entryText id

/-- Choices as explanations list them. -/
def describeAll (table : ChoiceTable) (ids : List ChoiceId) : String :=
  ", ".intercalate (ids.map table.describe)

end ChoiceTable

end Loadout
