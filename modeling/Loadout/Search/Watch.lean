/-
**Watch lists: which constraints have to look again when a literal changes.**

A clause of two or more literals watches two of them and is visited when a watched literal becomes
false; the node on one watched literal carries the other as its *blocker*, which lets a satisfied
clause be passed over. A bounded sum watches all of its literals and is visited whenever one of
them becomes true. Every list keeps the order in which its nodes arrived.
-/

import Loadout.Search.Trail

namespace Loadout

/-- A clause that watches a literal. -/
structure WatchNode where
  /-- The clause. -/
  constraint : ConstraintId
  /-- The other literal that the clause watched when the node was made. -/
  blocker : Literal
deriving DecidableEq, Repr, Inhabited

/-- The watch lists of all literals. -/
structure WatchTable where
  /-- The clauses that watch each literal, by `WatchTable.place`. -/
  clauses : Array (List WatchNode)
  /-- The bounded sums that mention each literal, by `WatchTable.place`. -/
  sums : Array (List ConstraintId)
deriving DecidableEq, Repr, Inhabited

namespace WatchTable

/-- The table in which nothing is watched. -/
def empty : WatchTable :=
  ⟨#[], #[]⟩

/-- The place of a literal: the two literals of a variable stand side by side. -/
def place (literal : Literal) : Nat :=
  2 * literal.atom + if literal.positive then 0 else 1

/-- Replaces the list at a place, after filling up with empty lists as far as needed. -/
def putAt {α : Type} (place : Nat) (list : List α) (lists : Array (List α)) : Array (List α) :=
  (lists ++ Array.replicate (place + 1 - lists.size) []).setIfInBounds place list

/-- The clauses that watch a literal. -/
def watching (table : WatchTable) (literal : Literal) : List WatchNode :=
  table.clauses[place literal]?.getD []

/-- The bounded sums that mention a literal. -/
def mentioning (table : WatchTable) (literal : Literal) : List ConstraintId :=
  table.sums[place literal]?.getD []

/-- Adds a node at the end of the list of a literal. -/
def watch (literal : Literal) (node : WatchNode) (table : WatchTable) : WatchTable :=
  { table with
    clauses := putAt (place literal) (table.watching literal ++ [node]) table.clauses }

/-- Watches two literals of a clause, each with the other as its blocker. -/
def watchClause (constraint : ConstraintId) (first second : Literal) (table : WatchTable) :
    WatchTable :=
  (table.watch first ⟨constraint, second⟩).watch second ⟨constraint, first⟩

/-- Watches every literal of a bounded sum. -/
def watchSum (constraint : ConstraintId) (literals : List Literal) (table : WatchTable) :
    WatchTable :=
  literals.foldl
    (fun table literal =>
      { table with
        sums := putAt (place literal) (table.mentioning literal ++ [constraint]) table.sums })
    table

/-- Detaches the clauses that watch a literal, to be handed back by `WatchTable.restore`. -/
def take (literal : Literal) (table : WatchTable) : List WatchNode × WatchTable :=
  (table.watching literal,
    { table with clauses := table.clauses.setIfInBounds (place literal) [] })

/-- Hands nodes back to a literal, behind those that arrived in the meantime. -/
def restore (literal : Literal) (nodes : List WatchNode) (table : WatchTable) : WatchTable :=
  { table with
    clauses := putAt (place literal) (table.watching literal ++ nodes) table.clauses }

end WatchTable

end Loadout
