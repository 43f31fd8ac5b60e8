/-
**The engine: choices and rules, and the two questions about them.**

An `Engine` holds the choices and rules of one resolution. It answers whether the rules can hold
together (`Engine.hasSolution`, with the rules of a conflict in `Engine.lastConflict`), and which
assignment that satisfies them has the lowest total weight (`Engine.solution`).

Every operation gives its result and the engine afterwards. Choices and rules may change until a
check succeeds. After a hard cancellation every operation is refused; a soft cancellation stops one
search and is then cleared. The time limit starts with the first search and is shared by all of
them. What happens outside while a search runs is the script `outside`, of which each poll of a
search takes one event.
-/

import Loadout.Config
import Loadout.Engine.Forest
import Loadout.Engine.Optimizer

namespace Loadout

/-- The choices and rules of a resolution, and how far it has come. -/
structure Engine where
  choices : ChoiceTable
  forest : Forest
  step : Step
  /-- Whether choices or rules have changed since the last check. -/
  changed : Bool
  /-- The rules of the last conflict. -/
  lastCore : Option (List RuleId)
  /-- The search for the cheapest assignment, prepared by a check that succeeded. -/
  prepared : Option (Numbering × Optimizer)
  signal : CancelSignal
  /-- The time limit in milliseconds. -/
  timeoutMs : Option Nat
  /-- The clock of the time limit, running from the first search on. -/
  clock : Option Clock
  /-- What the polls of the next searches meet. -/
  outside : List OutsideEvent
  minimizeCores : Bool

namespace Engine

/-- The engine without choices and rules, under a cancellation. -/
def create (config : Config) (signal : CancelSignal) : Engine where
  choices := .empty
  forest := .empty
  step := .defining
  changed := true
  lastCore := none
  prepared := none
  signal := signal
  timeoutMs := config.timeoutMs
  clock := none
  outside := []
  minimizeCores := config.minimizeCores

/-- The result of an operation, with the engine afterwards. -/
abbrev Outcome (α : Type) := Except SolverError α × Engine

/-! ### Cancellation -/

/-- Asks the present or next search to stop. -/
def cancel (engine : Engine) : Engine :=
  { engine with signal := engine.signal.cancel }

/-- Refuses every operation from now on. -/
def hardCancel (engine : Engine) : Engine :=
  { engine with signal := engine.signal.hardCancel }

/-! ### Changing choices and rules -/

/-- Why choices and rules may not be changed now, if they may not. -/
def editFault? (operation : Operation) (engine : Engine) : Option SolverError :=
  if engine.signal.isPoisoned then some .cancelled
  else
    match engine.step with
    | .defining => none
    | .failed => none
    | step => some (.invalidState operation step)

/-- Forgets what was found out about the rules as they were. -/
def markChanged (engine : Engine) : Engine :=
  { engine with changed := true, lastCore := none }

/-- Registers a choice, which every rule takes note of. -/
def addChoice (choice : Choice) (weight : Int) (engine : Engine) : Outcome ChoiceId :=
  match engine.editFault? .addChoice with
  | some error => (.error error, engine)
  | none =>
    let (id, choices) := engine.choices.add choice weight
    let forest := engine.forest.react (Rule.choiceAdded choices id)
    (.ok id, { engine with choices, forest }.markChanged)

/-- Changes the weight of a choice. -/
def setWeight (id : ChoiceId) (weight : Int) (engine : Engine) : Outcome Unit :=
  match engine.editFault? .setWeight with
  | some error => (.error error, engine)
  | none =>
    match engine.choices.setWeight id weight with
    | none => (.error (.definition (.unknownChoice id)), engine)
    | some choices => (.ok (), { engine with choices }.markChanged)

/-- Removes a choice, which from now on is false in every rule. -/
def removeChoice (id : ChoiceId) (engine : Engine) : Outcome Unit :=
  match engine.editFault? .removeChoice with
  | some error => (.error error, engine)
  | none =>
    match engine.choices.remove id with
    | none => (.error (.definition (.unknownChoice id)), engine)
    | some choices =>
      let forest := engine.forest.react (Rule.choiceRemoved id)
      (.ok (), { engine with choices, forest }.markChanged)

/-- The rule after it has taken note of every registered choice. -/
def acquaint (choices : ChoiceTable) (rule : Rule) : Rule :=
  choices.ids.foldl (fun rule id => (rule.choiceAdded choices id).2) rule

/-- Registers a rule, perhaps as a part of another, and defines it. -/
def addRule (rule : Rule) (parent : Option RuleId) (engine : Engine) : Outcome RuleId :=
  match engine.editFault? .addRule with
  | some error => (.error error, engine)
  | none =>
    match parent.filter fun parent => !engine.forest.contains parent with
    | some missing => (.error (.definition (.unknownRule missing)), engine)
    | none =>
      let (id, forest) := engine.forest.add (acquaint engine.choices rule) parent
      match forest.define engine.choices id with
      | .error error =>
        (.error (.definition error), { engine with forest := (forest.remove id).2 })
      | .ok forest => (.ok id, { engine with forest }.markChanged)

/-- Removes a rule with all of its parts. -/
def removeRule (id : RuleId) (engine : Engine) : Outcome (List RuleId) :=
  match engine.editFault? .removeRule with
  | some error => (.error error, engine)
  | none =>
    if engine.forest.contains id then
      let (removed, forest) := engine.forest.remove id
      (.ok removed, { engine with forest }.markChanged)
    else (.error (.definition (.unknownRule id)), engine)

/-- Defines rules anew, up to the first fault. -/
def redefineRules : List RuleId → Engine → Outcome Unit
  | [], engine => (.ok (), engine)
  | id :: rest, engine =>
    match engine.forest.define engine.choices id with
    | .error error => (.error (.definition error), engine)
    | .ok forest => redefineRules rest { engine with forest }

/-- Defines every rule anew whose choices have changed. -/
def redefine (engine : Engine) : Outcome Unit :=
  engine.redefineRules engine.forest.staleRules

/-! ### Searching -/

/-- Starts the clock of the time limit unless it runs already. -/
def startClock (engine : Engine) : Engine :=
  match engine.clock with
  | some _ => engine
  | none =>
    { engine with
      clock := engine.timeoutMs.map fun limit => if limit = 0 then .expired else .running }

/-- What a search has to heed. -/
def watchdog (engine : Engine) : Watchdog :=
  ⟨engine.signal, engine.clock, engine.outside⟩

/-- The engine after a search, as the search leaves the world. -/
def afterSearch (dog : Watchdog) (engine : Engine) : Engine :=
  { engine with signal := dog.signal, clock := dog.clock, outside := dog.coming }

/-- Says why a search stopped early; a soft cancellation is cleared by it. -/
def interrupted {α : Type} (engine : Engine) : Outcome α :=
  if engine.signal.isCancelled then
    (.error .cancelled, { engine with signal := engine.signal.acknowledge })
  else (.error .timeout, engine)

/-- Notes that the rules can hold together and prepares the search for the cheapest assignment. -/
def prepare (numbering : Numbering) (engine : Engine) : Outcome Bool :=
  let engine := { engine with changed := false }
  match Optimizer.build numbering engine.forest.constraints
      (numbering.objective engine.choices) with
  | .error error => (.error (.definition error), engine)
  | .ok optimizer =>
    (.ok true,
      { engine with prepared := some (numbering, optimizer), lastCore := none, step := .ready })

/-- Notes a conflict. -/
def noteConflict (core : List RuleId) (engine : Engine) : Outcome Bool :=
  let engine := { engine with changed := false }
  if core.isEmpty then (.error (.internal .emptyCore), engine)
  else (.ok false, { engine with lastCore := some core, step := .failed })

/-- Checks whether the rules as they are defined can hold together. -/
def checkRules (engine : Engine) : Outcome Bool :=
  let engine := engine.startClock
  let numbering := Numbering.ofTable engine.choices
  match Explainer.build numbering engine.forest.constraints with
  | .error error => (.error (.definition error), engine)
  | .ok explainer =>
    let (feasibility, dog) := explainer.check engine.minimizeCores engine.watchdog
    let engine := engine.afterSearch dog
    match feasibility with
    | none => engine.interrupted
    | some .satisfiable => engine.prepare numbering
    | some (.unsatisfiable core) => engine.noteConflict core

/-- Whether the rules can hold together. -/
def hasSolution (engine : Engine) : Outcome Bool :=
  if engine.signal.isPoisoned then (.error .cancelled, engine)
  else
    match engine.step with
    | .ready => (.ok true, engine)
    | .optimizing => (.error (.invalidState .hasSolution .optimizing), engine)
    | .done => (.error (.invalidState .hasSolution .done), engine)
    | _ =>
      if !engine.changed && engine.lastCore.isSome then (.ok false, engine)
      else
        match engine.redefine with
        | (.error error, engine) => (.error error, engine)
        | (.ok (), engine) => engine.checkRules

/-- The rules of the conflict that the last check found. -/
def lastConflict (engine : Engine) : Except SolverError (List RuleId) :=
  if engine.signal.isPoisoned then .error .cancelled
  else
    match engine.lastCore, engine.step with
    | some core, .failed => .ok core
    | _, step => .error (.invalidState .getError step)

/-- The registered choices that are true in a model, aliases included. -/
def loadedIn (numbering : Numbering) (model : Array Bool) (engine : Engine) : List ChoiceId :=
  engine.choices.ids.filter (numbering.value engine.choices model)

/-- The registered choices that the cheapest assignment loads. -/
def solution (engine : Engine) : Outcome (List ChoiceId) :=
  if engine.signal.isPoisoned then (.error .cancelled, engine)
  else if engine.step ≠ .ready then (.error (.invalidState .getSolution engine.step), engine)
  else
    let engine := engine.startClock
    match engine.prepared with
    | none => (.error (.internal .optimizerMissing), engine)
    | some (numbering, optimizer) =>
      let (optimum, dog, optimizer) := optimizer.optimize engine.watchdog
      let engine := { engine with prepared := some (numbering, optimizer) }.afterSearch dog
      match optimum with
      | .found model => (.ok (engine.loadedIn numbering model), { engine with step := .done })
      | .stopped => engine.interrupted
      | .infeasible =>
        (.error (.internal .optimizerInfeasible), { engine with step := .done })

end Engine

end Loadout
