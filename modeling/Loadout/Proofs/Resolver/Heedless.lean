/-
**Registering a request heeds nothing outside.**

What happens outside is met by searches alone. An action that is made of registering choices and
rules (`Engine.Registers`) does the same whatever is to come, and leaves that as it is. Of a
cancellation it heeds only whether that is a hard one:

* **`Registers.elsewhere`**: it does the same in every world, so that what it gives in one it gives
  in all (`Registers.gives`);
* `Registers.not_internal`: it never fails for a fault of the engine itself;
* **`registers_addRequest`**: making choices and rules of a request is such an action.
-/

import Loadout.Proofs.Resolver.Drafts

namespace Loadout

namespace Engine

variable {α β : Type} {engine after : Engine}

/-- The engine whose next searches meet some events. -/
def amid (events : List OutsideEvent) (engine : Engine) : Engine :=
  { engine with outside := events }

/-- The engine in another world: under a cancellation, and with events that are to come. -/
def elsewhere (signal : CancelSignal) (events : List OutsideEvent) (engine : Engine) : Engine :=
  { engine with signal, outside := events }

theorem editFault?_elsewhere {signal : CancelSignal} {engine : Engine}
    (same : signal.isPoisoned = engine.signal.isPoisoned) (events : List OutsideEvent)
    (operation : Operation) :
    (engine.elsewhere signal events).editFault? operation = engine.editFault? operation := by
  unfold editFault?
  show (if signal.isPoisoned = true then _ else _) = _
  rw [same]
  rfl

theorem editFault?_ne_internal (operation : Operation) (engine : Engine) (fault : InternalFault) :
    engine.editFault? operation ≠ some (.internal fault) := by
  unfold editFault?
  repeat' split
  all_goals nofun

/-! ### Actions that register -/

/-- **An action registers choices and rules**, and refuses what is wrong with a request. A choice
may depend on those that are there. -/
inductive Registers : {α : Type} → Action α → Prop
  | pure {α : Type} (result : α) : Registers (pure result : Action α)
  | throw {α : Type} (error : DefinitionError) : Registers (throw (.definition error) : Action α)
  | addChoice (choice : ChoiceTable → Choice) (weight : Int) :
    Registers fun engine : Engine => Resolver.addChoice (choice engine.choices) weight engine
  | addRule (rule : Rule) (parent : Option RuleId) : Registers (Resolver.addRule rule parent)
  | bind {α β : Type} {action : Action α} {next : α → Action β} :
    Registers action → (∀ result, Registers (next result)) → Registers (action >>= next)

namespace Registers

theorem map {action : Action α} (one : Registers action) (change : α → β) :
    Registers (change <$> action) :=
  one.bind fun result => .pure (change result)

theorem forM {items : List α} {action : α → Action Unit}
    (each : ∀ item, Registers (action item)) : Registers (items.forM action) := by
  induction items with
  | nil => exact .pure ()
  | cons item rest ih => exact (each item).bind fun _ => ih

theorem mapM {items : List α} {action : α → Action β}
    (each : ∀ item, Registers (action item)) : Registers (items.mapM action) := by
  induction items with
  | nil => exact .pure []
  | cons item rest ih =>
    rw [List.mapM_cons]
    exact (each item).bind fun first => ih.bind fun others => .pure (first :: others)

/-- **What registers does the same in every world** that is under a hard cancellation just when
the own world is. -/
theorem elsewhere {action : Action α} (registers : Registers action) {signal : CancelSignal}
    {engine : Engine} (same : signal.isPoisoned = engine.signal.isPoisoned)
    (events : List OutsideEvent) : action (engine.elsewhere signal events) =
      ((action engine).1, (action engine).2.elsewhere signal events) := by
  induction registers generalizing engine signal events with
  | pure result => rfl
  | throw error => rfl
  | addChoice choice weight =>
    show Resolver.addChoice (choice engine.choices) weight (engine.elsewhere signal events) = _
    unfold Resolver.addChoice Engine.addChoice
    rw [editFault?_elsewhere same]
    dsimp only
    cases engine.editFault? .addChoice <;> rfl
  | addRule rule parent =>
    have known : (engine.elsewhere signal events).forest = engine.forest := rfl
    have choices : (engine.elsewhere signal events).choices = engine.choices := rfl
    unfold Resolver.addRule Engine.addRule
    rw [editFault?_elsewhere same, known, choices]
    cases engine.editFault? .addRule with
    | some error => rfl
    | none =>
      dsimp only
      cases parent.filter fun parent => !engine.forest.contains parent with
      | some missing => rfl
      | none =>
        dsimp only
        generalize (engine.forest.add (acquaint engine.choices rule) parent).2.define
          engine.choices (engine.forest.add (acquaint engine.choices rule) parent).1 = defined
        cases defined <;> rfl
  | @bind _ _ action next _ _ one two =>
    -- the own world is one of the worlds, so that the action leaves it as it is
    have own : (action engine).2.signal = engine.signal :=
      congrArg (fun outcome : Outcome _ => outcome.2.signal) (one rfl engine.outside)
    show ExceptT.bindCont next (action (engine.elsewhere signal events)).1
        (action (engine.elsewhere signal events)).2 =
      ((ExceptT.bindCont next (action engine).1 (action engine).2).1,
        (ExceptT.bindCont next (action engine).1 (action engine).2).2.elsewhere signal events)
    rw [one same]
    cases (action engine).1 with
    | error error => rfl
    | ok result => exact two result (same.trans (congrArg CancelSignal.isPoisoned own.symm)) events

/-- A cancellation stays what it is. -/
theorem signal_eq {action : Action α} (registers : Registers action) (engine : Engine) :
    (action engine).2.signal = engine.signal :=
  congrArg (fun outcome : Outcome α => outcome.2.signal)
    (@elsewhere _ _ registers engine.signal engine rfl engine.outside)

/-- What registers gives the same in every such world. -/
theorem gives {action : Action α} (registers : Registers action) {result : α}
    (given : Gives action engine result after) {signal : CancelSignal}
    (same : signal.isPoisoned = engine.signal.isPoisoned) (events : List OutsideEvent) :
    Gives action (engine.elsewhere signal events) result (after.elsewhere signal events) := by
  unfold Gives at given ⊢
  rw [registers.elsewhere same, given]

/-- **What registers never fails for a fault of the engine.** -/
theorem not_internal {action : Action α} (registers : Registers action) (engine : Engine)
    (fault : InternalFault) : (action engine).1 ≠ .error (.internal fault) := by
  induction registers generalizing engine with
  | pure result => nofun
  | throw error => nofun
  | addChoice choice weight =>
    show (Resolver.addChoice (choice engine.choices) weight engine).1 ≠ _
    unfold Resolver.addChoice Engine.addChoice
    cases found : engine.editFault? .addChoice with
    | none => nofun
    | some error =>
      exact fun same => editFault?_ne_internal _ engine fault
        (found.trans (congrArg some (Except.error.inj same)))
  | addRule rule parent =>
    unfold Resolver.addRule Engine.addRule
    cases found : engine.editFault? .addRule with
    | some error =>
      exact fun same => editFault?_ne_internal _ engine fault
        (found.trans (congrArg some (Except.error.inj same)))
    | none =>
      dsimp only
      repeat' split
      all_goals nofun
  | @bind _ _ action next _ _ one two =>
    show (ExceptT.bindCont next (action engine).1 (action engine).2).1 ≠ _
    have first := one engine
    cases done : (action engine).1 with
    | error error =>
      rw [done] at first
      show Except.error error ≠ _
      rintro ⟨⟩
      exact first rfl
    | ok result => exact two result _

end Registers

end Engine

namespace Resolver

open Engine

/-! ### Choices and rules -/

/-- A branch is named after its source. -/
theorem registers_addBranch (source : ChoiceId) (label : String) :
    Registers (addBranch source label) :=
  .addChoice (fun choices => .branch (choices.describe source ++ " (" ++ label ++ ")")) 0

theorem registers_addBranches (source : ChoiceId) (noun : String) (count : Nat) :
    Registers (addBranches source noun count) :=
  .mapM fun _ => registers_addBranch source _

theorem registers_addException (source : ChoiceId) (exception : Option Dependency) :
    Registers (addException source exception) := by
  cases exception with
  | none => exact .pure none
  | some exception => exact (registers_addBranch source "exception").map some

/-! ### Links -/

mutual

theorem registers_addDependency : ∀ (dependency : Dependency) (source : ChoiceId)
    (parent : Option RuleId), Registers (addDependency source parent dependency)
  | .only _ _ _ exception, source, parent =>
    (registers_addException source exception).bind fun branch =>
      (Registers.addRule _ parent).bind fun id => registers_addExceptionRules exception branch id
  | .any alternatives exception, source, parent =>
    (registers_addBranches source "alternative" alternatives.length).bind fun branches =>
      (registers_addException source exception).bind fun branch =>
        (Registers.addRule _ parent).bind fun id =>
          (registers_addAlternatives alternatives id branches).bind fun _ =>
            registers_addExceptionRules exception branch id

theorem registers_addExceptionRules : ∀ (exception : Option Dependency)
    (branch : Option ChoiceId) (parent : RuleId),
    Registers (addExceptionRules branch parent exception)
  | none, _, _ => Registers.pure ()
  | some _, none, _ => Registers.pure ()
  | some exception, some branch, parent => registers_addDependency exception branch (some parent)

theorem registers_addAlternatives : ∀ (alternatives : List Dependency) (parent : RuleId)
    (branches : List ChoiceId), Registers (addAlternatives parent branches alternatives)
  | [], _, _ => Registers.pure ()
  | _ :: _, _, [] => Registers.pure ()
  | alternative :: rest, parent, branch :: branches =>
    (registers_addDependency alternative branch (some parent)).bind fun _ =>
      registers_addAlternatives rest parent branches

end

mutual

theorem registers_addBreakage : ∀ (breakage : Breakage) (source : ChoiceId) (role : BreakRole)
    (parent : Option RuleId), Registers (addBreakage source role parent breakage)
  | .only _ _ _ exception, source, _, parent =>
    (registers_addException source exception).bind fun branch =>
      (Registers.addRule _ parent).bind fun id => registers_addExceptionRules exception branch id
  | .all parts exception, source, _, parent =>
    (registers_addBranches source "part" parts.length).bind fun branches =>
      (registers_addException source exception).bind fun branch =>
        (Registers.addRule _ parent).bind fun id =>
          (registers_addParts parts id branches).bind fun _ =>
            registers_addExceptionRules exception branch id

theorem registers_addParts : ∀ (parts : List Breakage) (parent : RuleId)
    (branches : List ChoiceId), Registers (addParts parent branches parts)
  | [], _, _ => Registers.pure ()
  | _ :: _, _, [] => Registers.pure ()
  | part :: rest, parent, branch :: branches =>
    (registers_addBreakage part branch .part (some parent)).bind fun _ =>
      registers_addParts rest parent branches

end

theorem registers_addLinks (registered : Registered) : Registers (addLinks registered) :=
  (Registers.forM fun dependency => registers_addDependency dependency _ none).bind fun _ =>
    Registers.forM fun breakage => registers_addBreakage breakage _ .standalone none

/-! ### Requests -/

theorem registers_registerPool (bias : Int) (modId : String) (candidates : List Candidate)
    (place : Nat) (mandatory : Option String) (keys : List String) :
    Registers (registerPool bias modId place mandatory keys candidates) := by
  induction candidates generalizing place mandatory keys with
  | nil => exact Registers.pure _
  | cons candidate rest ih =>
    have later : ∀ mandatory', Registers (do
        let choice ← addChoice (choiceOf modId candidate) (derivedWeight bias place candidate)
        let later ← registerPool bias modId (place + 1) mandatory' (candidate.key :: keys) rest
        return (⟨modId, candidate, choice⟩ :: later.1, later.2)) := fun mandatory' =>
      (Registers.addChoice (fun _ => _) _).bind fun choice => (ih _ mandatory' _).bind fun later =>
        Registers.pure _
    unfold registerPool
    by_cases met : keys.contains candidate.key = true
    · rw [if_pos met]
      exact Registers.throw (.duplicateCandidate candidate.key)
    · rw [if_neg met]
      dsimp only
      by_cases must : candidate.mandatory = true
      · rw [if_pos must]
        cases mandatory with
        | some first => exact (Registers.throw _).bind later
        | none => exact (Registers.pure _).bind later
      · rw [if_neg must]
        exact (Registers.pure _).bind later

theorem registers_registerPools (bias : Int) (pools : List (String × List Candidate))
    (keys : List String) : Registers (registerPools bias keys pools) := by
  induction pools generalizing keys with
  | nil => exact Registers.pure _
  | cons pool rest ih =>
    obtain ⟨modId, pool⟩ := pool
    unfold registerPools
    exact (registers_registerPool bias modId (ranked pool) 0 none keys).bind fun first =>
      (ih first.2).bind fun others => Registers.pure _

theorem registers_registerCandidates (bias : Int) (request : Request) :
    Registers (registerCandidates bias request) :=
  (registers_registerPools bias request.pools.entries []).bind fun registered =>
    (Registers.forM fun _ => Registers.forM fun _ =>
      (Registers.addChoice (fun _ => _) 0).bind fun _ => .pure ()).bind fun _ => .pure registered

theorem registers_addSetRules (registered : List Registered) (modId : String) :
    Registers (addSetRules registered modId) := by
  unfold addSetRules
  split
  · exact (Registers.addRule _ none).bind fun _ => (Registers.addRule _ none).bind fun _ =>
      Registers.pure ()
  · exact (Registers.addRule _ none).bind fun _ => Registers.pure ()

/-- **Making choices and rules of a request registers them.** -/
theorem registers_addRequest (bias : Int) (request : Request) :
    Registers (addRequest bias request) :=
  (registers_registerCandidates bias request).bind fun registered =>
    (Registers.forM fun modId => registers_addSetRules registered modId).bind fun _ =>
      (Registers.forM registers_addLinks).bind fun _ => Registers.pure registered

end Resolver

end Loadout
