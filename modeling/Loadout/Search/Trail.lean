/-
**The trail: which variables are decided, in what order, and at which level.**

A search decides literals one after another. Each decided variable has an `Entry` that records its
value, the level open at that time, the constraint that forced it (none for a free choice) and its
place in the queue. Levels are opened by `Trail.openLevel` and may stay empty; `Trail.revertTo`
takes back every decision above a level.

* `Trail.value?` is the truth value of a literal, `none` while its variable is undecided.
* `Trail.queue` holds the decided literals in order, each variable once.
* `Trail.levelStart` is the length that the queue had when a level was opened.
-/

import Loadout.Search.Literal

namespace Loadout

/-- The number of a stored constraint. -/
abbrev ConstraintId := Nat

/-- What is recorded of a decided variable. -/
structure Entry where
  /-- The value of the variable. -/
  positive : Bool
  /-- The level that was open when the variable was decided. -/
  level : Nat
  /-- The constraint that forced the value, if one did. -/
  reason : Option ConstraintId
  /-- The place of the variable in the queue. -/
  position : Nat
deriving DecidableEq, Repr, Inhabited

/-- The decided literals with their order and their levels. -/
structure Trail where
  /-- The record of each variable, by number; `none` while it is undecided. -/
  entries : Array (Option Entry)
  /-- The decided literals in order. -/
  queue : Array Literal
  /-- The length of the queue at the opening of each level above zero. -/
  levelStarts : Array Nat
deriving DecidableEq, Repr, Inhabited

namespace Trail

/-! ### Room for variables -/

/-- The trail on which nothing is decided and no variable has room. -/
def empty : Trail :=
  ⟨#[], #[], #[]⟩

/-- The trail with room for the variables up to `count`. -/
def withRoom (count : Nat) : Trail :=
  ⟨Array.replicate (count + 1) none, #[], #[]⟩

/-- Makes room for a variable. -/
def makeRoom (atom : Nat) (trail : Trail) : Trail :=
  { trail with
    entries := trail.entries ++ Array.replicate (atom + 1 - trail.entries.size) none }

/-- How many variable numbers have room, zero included. -/
def room (trail : Trail) : Nat :=
  trail.entries.size

/-! ### Questions -/

/-- The number of levels that are open. -/
def level (trail : Trail) : Nat :=
  trail.levelStarts.size

/-- The number of decided variables. -/
def length (trail : Trail) : Nat :=
  trail.queue.size

/-- The record of a variable, if it is decided. -/
def record? (trail : Trail) (atom : Nat) : Option Entry :=
  (trail.entries[atom]?).join

/-- The truth value of a literal, if its variable is decided. -/
def value? (trail : Trail) (literal : Literal) : Option Bool :=
  (trail.record? literal.atom).map fun entry => entry.positive == literal.positive

/-- Whether the literal is decided to be true. -/
def isTrue (trail : Trail) (literal : Literal) : Bool :=
  trail.value? literal == some true

/-- Whether the literal is decided to be false. -/
def isFalse (trail : Trail) (literal : Literal) : Bool :=
  trail.value? literal == some false

/-- Whether the variable is decided. -/
def decided (trail : Trail) (atom : Nat) : Bool :=
  (trail.record? atom).isSome

/-- The level at which the variable of a literal was decided. -/
def level? (trail : Trail) (literal : Literal) : Option Nat :=
  (trail.record? literal.atom).map Entry.level

/-- The constraint that forced the variable of a literal, if one did. -/
def reason? (trail : Trail) (literal : Literal) : Option ConstraintId :=
  (trail.record? literal.atom).bind Entry.reason

/-- The place in the queue of the variable of a literal. -/
def position? (trail : Trail) (literal : Literal) : Option Nat :=
  (trail.record? literal.atom).map Entry.position

/-- The length of the queue when a level was opened; the present length for a level that is not
open. -/
def levelStart (trail : Trail) (level : Nat) : Nat :=
  match level with
  | 0 => 0
  | below + 1 => trail.levelStarts[below]?.getD trail.length

/-- The present value of every variable that has room, undecided ones counting as false. -/
def model (trail : Trail) : Array Bool :=
  trail.entries.map fun entry => (entry.map Entry.positive).getD false

/-! ### Changes -/

/-- Opens a level. -/
def openLevel (trail : Trail) : Trail :=
  { trail with levelStarts := trail.levelStarts.push trail.queue.size }

/-- Makes a literal true at the present level. A decided variable is left as it is; the answer says
whether the literal is true afterwards. -/
def assign (literal : Literal) (reason : Option ConstraintId) (trail : Trail) : Bool × Trail :=
  match trail.record? literal.atom with
  | some entry => (entry.positive == literal.positive, trail.makeRoom literal.atom)
  | none =>
    let trail := trail.makeRoom literal.atom
    let entry : Entry := ⟨literal.positive, trail.level, reason, trail.queue.size⟩
    (true,
      { trail with
        entries := trail.entries.setIfInBounds literal.atom (some entry)
        queue := trail.queue.push literal })

/-- The trail after making a literal true. -/
def push (literal : Literal) (reason : Option ConstraintId) (trail : Trail) : Trail :=
  (trail.assign literal reason).2

/-- Takes back every decision made above a level and closes the levels above it. -/
def revertTo (level : Nat) (trail : Trail) : Trail :=
  match trail.levelStarts[level]? with
  | none => trail
  | some start =>
    { entries := (trail.queue.toList.drop start).foldl
        (fun entries literal => entries.setIfInBounds literal.atom none) trail.entries
      queue := trail.queue.take start
      levelStarts := trail.levelStarts.take level }

end Trail

end Loadout
