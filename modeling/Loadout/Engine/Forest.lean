/-
**The rules of an engine, as a forest.**

Rules are numbered in the order in which they are added, and a rule may be a part of an earlier
one, its parent. Removing a rule removes everything below it and leaves holes, so that numbers
stay what they are.

A parent's number is smaller than that of its parts, so chains of parents and of parts are no
longer than the list of rules; the walks along them are bounded by it.
-/

import Loadout.Engine.Rule

namespace Loadout

/-- A rule with its place in the forest. -/
structure RuleNode where
  rule : Rule
  /-- The rule that this one is a part of. -/
  parent : Option RuleId
  /-- The parts of the rule, in the order in which they were added. -/
  children : List RuleId
  /-- What the rule stood for when it was last defined. -/
  constraints : List Cardinality
  /-- Whether the rule has changed since then. -/
  stale : Bool
deriving DecidableEq, Repr, Inhabited

/-- All rules by number, with holes where rules were removed. -/
structure Forest where
  nodes : Array (Option RuleNode)
  /-- How many rules are registered, counted when rules are added and removed. -/
  active : Nat
deriving DecidableEq, Repr, Inhabited

/-- How many rules of each kind a forest holds. -/
structure ForestCount where
  total : Nat
  mandatory : Nat
  optionalSets : Nat
  overriddenSets : Nat
  dependencies : Nat
  breakages : Nat
  /-- Rules that are parts of others. -/
  parts : Nat
  /-- Cardinalities of all rules together. -/
  constraints : Nat
deriving DecidableEq, Repr, Inhabited

namespace Forest

/-- The forest without rules. -/
def empty : Forest :=
  ⟨#[], 0⟩

/-! ### Questions -/

/-- The node of a registered rule. -/
def node? (forest : Forest) (id : RuleId) : Option RuleNode :=
  (forest.nodes[id]?).join

/-- The registered rule with a number. -/
def rule? (forest : Forest) (id : RuleId) : Option Rule :=
  (forest.node? id).map RuleNode.rule

/-- Whether a rule is registered. -/
def contains (forest : Forest) (id : RuleId) : Bool :=
  (forest.node? id).isSome

/-- The parent of a registered rule. -/
def parent? (forest : Forest) (id : RuleId) : Option RuleId :=
  (forest.node? id).bind RuleNode.parent

/-- The parts of a registered rule. -/
def children (forest : Forest) (id : RuleId) : List RuleId :=
  ((forest.node? id).map RuleNode.children).getD []

/-- The registered rules in ascending order of their numbers. -/
def toList (forest : Forest) : List (RuleId × RuleNode) :=
  forest.nodes.toList.zipIdx.filterMap fun entry => entry.1.map fun node => (entry.2, node)

/-- How many rules are registered. -/
def size (forest : Forest) : Nat :=
  forest.toList.length

/-- Follows at most a number of parents. -/
def climb (forest : Forest) : Nat → RuleId → RuleId
  | 0, id => id
  | steps + 1, id =>
    match forest.parent? id with
    | some parent => climb forest steps parent
    | none => id

/-- The outermost rule that a rule is a part of. -/
def topLevel (forest : Forest) (id : RuleId) : RuleId :=
  forest.climb forest.nodes.size id

/-- A rule and what is below it down to a depth, each rule before its parts. -/
def descend (forest : Forest) : Nat → RuleId → List RuleId
  | 0, id => [id]
  | depth + 1, id => id :: (forest.children id).flatMap (descend forest depth)

/-- A registered rule and everything below it, each rule before its parts. -/
def subtree (forest : Forest) (id : RuleId) : List RuleId :=
  if forest.contains id then forest.descend forest.nodes.size id else []

/-- Counts the rules by kind. -/
def count (forest : Forest) : ForestCount :=
  let nodes := forest.toList.map Prod.snd
  let countRules (test : Rule → Bool) : Nat := nodes.countP fun node => test node.rule
  { total := forest.active
    mandatory := countRules Rule.isMandatory
    optionalSets := countRules fun rule => rule matches .optionalSet ..
    overriddenSets := countRules fun rule => rule matches .overriddenSet ..
    dependencies := countRules Rule.isDependency
    breakages := countRules Rule.isBreakage
    parts := nodes.countP fun node => node.parent.isSome
    constraints := (nodes.flatMap fun node => node.constraints).length }

/-! ### Changes -/

/-- Changes the node of a registered rule. -/
def modify (id : RuleId) (edit : RuleNode → RuleNode) (forest : Forest) : Forest :=
  { forest with nodes := forest.nodes.modify id (Option.map edit) }

/-- Adds a rule under the next number, as the last part of its parent. -/
def add (rule : Rule) (parent : Option RuleId) (forest : Forest) : RuleId × Forest :=
  let id := forest.nodes.size
  let forest := match parent with
    | some parent =>
      forest.modify parent fun node => { node with children := node.children ++ [id] }
    | none => forest
  (id, ⟨forest.nodes.push (some ⟨rule, parent, [], [], true⟩), forest.active + 1⟩)

/-- Leaves a hole in the place of a registered rule. -/
def vacate (forest : Forest) (id : RuleId) : Forest :=
  if forest.contains id then ⟨forest.nodes.setIfInBounds id none, forest.active - 1⟩ else forest

/-- Removes a rule with everything below it, and gives the numbers of what was removed. -/
def remove (id : RuleId) (forest : Forest) : List RuleId × Forest :=
  let removed := forest.subtree id
  let forest' := removed.foldl vacate forest
  (removed,
    match forest.parent? id with
    | some parent =>
      forest'.modify parent fun node => { node with children := node.children.filter (· != id) }
    | none => forest')

/-- Lets every rule react to a change of the choices; the rules that do become stale. -/
def react (change : Rule → Bool × Rule) (forest : Forest) : Forest :=
  { forest with
    nodes := forest.nodes.map fun slot => slot.map fun node =>
      let (changed, rule) := change node.rule
      { node with rule, stale := node.stale || changed } }

/-- The numbers of the rules that would react to a change of the choices. -/
def reacting (change : Rule → Bool × Rule) (forest : Forest) : List RuleId :=
  (forest.toList.filter fun entry => (change entry.2.rule).1).map Prod.fst

/-- Defines a registered rule anew. -/
def define (table : ChoiceTable) (id : RuleId) (forest : Forest) :
    Except DefinitionError Forest :=
  match forest.node? id with
  | none => .error (.unknownRule id)
  | some node => do
    let constraints ← node.rule.define table id
    return forest.modify id fun node => { node with constraints, stale := false }

/-- The numbers of the stale rules. -/
def staleRules (forest : Forest) : List RuleId :=
  (forest.toList.filter fun entry => entry.2.stale).map Prod.fst

/-- The cardinalities of every registered rule. -/
def constraints (forest : Forest) : List (RuleId × List Cardinality) :=
  forest.toList.map fun entry => (entry.1, entry.2.constraints)

end Forest

end Loadout
