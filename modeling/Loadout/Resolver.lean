/-
**Resolving a request.**

`Resolver.resolve` makes choices and rules of a request, asks the engine for the cheapest way to
satisfy them, and sorts the candidates into those that are loaded and those that are not
(`Resolver.sortOut`). Where the rules cannot hold together, it says why. A resolver may be
cancelled; the cancellation reaches the next request.
-/

import Loadout.Outcome
import Loadout.Resolver.Rules

namespace Loadout

/-- The settings under which requests are resolved, and whether that is to stop. -/
structure Resolver where
  config : Config
  signal : CancelSignal
deriving DecidableEq, Repr, Inhabited

namespace Resolver

/-- The resolver with some settings. -/
def ofConfig (config : Config) : Resolver :=
  ⟨config, .clear⟩

/-- Asks the next resolution to stop. -/
def cancel (resolver : Resolver) : Resolver :=
  { resolver with signal := resolver.signal.cancel }

/-- Refuses every resolution from now on. -/
def hardCancel (resolver : Resolver) : Resolver :=
  { resolver with signal := resolver.signal.hardCancel }

/-! ### Sorting out what is loaded -/

/-- The mod id that a loaded choice claims, the key of the candidate behind it, and whether it is
provided; branches claim nothing. -/
def claim? (table : ChoiceTable) (id : ChoiceId) :
    Except SolverError (Option (String × String × Bool)) :=
  match table.choice? id with
  | some (.candidate modId key _ _) => .ok (some (modId, key, false))
  | some (.alias _ modId _) =>
    match table.choice? (table.root id) with
    | some (.candidate _ key _ _) => .ok (some (modId, key, true))
    | _ => .error (.internal (.providerMissing modId))
  | _ => .ok none

/-- Notes what a loaded choice claims; no mod id may be claimed twice. -/
def takeClaim (table : ChoiceTable) (resolution : Resolution) (id : ChoiceId) :
    Except SolverError Resolution := do
  match ← claim? table id with
  | none => return resolution
  | some (modId, key, isProvided) =>
    if resolution.selected.keys.contains modId || resolution.provided.keys.contains modId then
      throw (.internal (.claimedTwice modId))
    if isProvided then
      return { resolution with provided := resolution.provided.insert modId key }
    else return { resolution with selected := resolution.selected.insert modId key }

/-- The resolution in which some choices are loaded. -/
def sortOut (table : ChoiceTable) (registered : List Registered) (loaded : List ChoiceId) :
    Except SolverError Resolution := do
  let resolution ← loaded.foldlM (takeClaim table) ⟨.empty, .empty, .empty⟩
  let rejected := (registered.filter fun entry => !loaded.contains entry.choice).foldl
    (fun rejected entry => rejected.append entry.modId entry.candidate.key) .empty
  return { resolution with rejected }

/-! ### Resolving -/

/-- What is done with an engine to resolve a request. -/
def resolution (config : Config) (request : Request) : Engine.Action Outcome := do
  let registered ← addRequest config.inclusionBias request
  let feasible ← (Engine.hasSolution : Engine → Engine.Outcome Bool)
  if feasible then
    let loaded ← (Engine.solution : Engine → Engine.Outcome (List ChoiceId))
    let engine ← get
    match sortOut engine.choices registered loaded with
    | .ok resolution => return .solved resolution
    | .error error => throw error
  else
    let problems ← (Engine.diagnose config.maxReportedErrors : Engine → Engine.Outcome _)
    return .infeasible problems

/-- Resolves a request. -/
def resolve (request : Request) (resolver : Resolver) : Except SolverError Outcome × Resolver :=
  let (result, engine) :=
    resolution resolver.config request (Engine.create resolver.config resolver.signal)
  (result, { resolver with signal := engine.signal })

end Resolver

end Loadout
