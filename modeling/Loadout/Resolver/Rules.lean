/-
**A request as choices and rules.**

Every candidate becomes a choice, and every mod id it provides an alias of it. Candidates of a pool
are registered from the best down: the higher version first, and the smaller key among equal
versions. A candidate that need not be loaded weighs its declared weight plus its place in that
order minus the inclusion bias, each step kept in 64 bits.

Every mod id that is mentioned anywhere gets the rule that at most one choice of it is loaded, or,
where a candidate is mandatory, that this one is and no other. Every dependency and breakage
becomes a tree of rules: a composite gets a branch for each of its parts, and an exception gets one
too; each branch is the source of a rule below.
-/

import Loadout.Engine
import Loadout.Request

namespace Loadout

/-- What is done with an engine: a result or an error, and the engine afterwards. -/
abbrev Engine.Action (α : Type) := ExceptT SolverError (StateM Engine) α

/-- A candidate with the choice that stands for it. -/
structure Registered where
  modId : String
  candidate : Candidate
  choice : ChoiceId

namespace Resolver

/-! ### Actions -/

/-- Registers a choice. -/
def addChoice (choice : Choice) (weight : Int) : Engine.Action ChoiceId :=
  fun engine => engine.addChoice choice weight

/-- Registers a rule. -/
def addRule (rule : Rule) (parent : Option RuleId) : Engine.Action RuleId :=
  fun engine => engine.addRule rule parent

/-! ### Candidates -/

/-- The nearest weight that has a place in 64 bits. -/
def saturate (weight : Int) : Int :=
  max weightMin (min weightMax weight)

/-- Whether a candidate stands before another of its pool, or level with it. -/
def ranksBefore (left right : Candidate) : Bool :=
  (right.version.order left.version).then (compareTexts left.key right.key) != .gt

/-- A pool with the best candidates first. -/
def ranked (pool : List Candidate) : List Candidate :=
  pool.mergeSort ranksBefore

/-- What loading a candidate adds to the cost of a solution. -/
def derivedWeight (bias : Int) (place : Nat) (candidate : Candidate) : Int :=
  if candidate.mandatory then 0 else saturate (saturate (candidate.weight + place) - bias)

/-- The choice that stands for a candidate. -/
def choiceOf (modId : String) (candidate : Candidate) : Choice :=
  .candidate modId candidate.key candidate.version candidate.mandatory

/-- Registers the candidates of a ranked pool from a place on. No key may occur twice in a request,
and no more than one candidate of a pool may be mandatory; `keys` and `mandatory` are those met so
far. -/
def registerPool (bias : Int) (modId : String) :
    Nat → Option String → List String → List Candidate →
      Engine.Action (List Registered × List String)
  | _, _, keys, [] => return ([], keys)
  | place, mandatory, keys, candidate :: rest => do
    if keys.contains candidate.key then
      throw (.definition (.duplicateCandidate candidate.key))
    let mandatory ←
      if candidate.mandatory then
        match mandatory with
        | some first => throw (.definition (.duplicateMandatory modId first candidate.key))
        | none => pure (some candidate.key)
      else pure mandatory
    let choice ← addChoice (choiceOf modId candidate) (derivedWeight bias place candidate)
    let (registered, keys) ←
      registerPool bias modId (place + 1) mandatory (candidate.key :: keys) rest
    return (⟨modId, candidate, choice⟩ :: registered, keys)

/-- Registers the candidates of all pools. -/
def registerPools (bias : Int) :
    List String → List (String × List Candidate) → Engine.Action (List Registered)
  | _, [] => return []
  | keys, (modId, pool) :: rest => do
    let (registered, keys) ← registerPool bias modId 0 none keys (ranked pool)
    return registered ++ (← registerPools bias keys rest)

/-- Registers an alias of a candidate for everything that it provides in earnest. -/
def registerAliases (registered : Registered) : Engine.Action Unit :=
  (registered.candidate.extras registered.modId).forM fun provided => do
    let version := provided.version.getD registered.candidate.version
    let _ ← addChoice (.alias registered.choice provided.modId version) 0

/-- Registers the candidates of a request and what they provide. -/
def registerCandidates (bias : Int) (request : Request) : Engine.Action (List Registered) := do
  let registered ← registerPools bias [] request.pools.entries
  registered.forM registerAliases
  return registered

/-! ### Sets of choices of one mod id -/

/-- The mod ids that a candidate mentions, in the order of their mention. -/
def mentionedBy (candidate : Candidate) : List String :=
  candidate.provides.map Provided.modId ++ candidate.mentions

/-- The mod ids of a request, each once: first those of its pools. -/
def allModIds (request : Request) (registered : List Registered) : List String :=
  (request.pools.keys ++ registered.flatMap fun entry => mentionedBy entry.candidate).eraseDups

/-- Adds the rules about the choices of one mod id. -/
def addSetRules (registered : List Registered) (modId : String) : Engine.Action Unit := do
  match registered.find? fun entry => entry.candidate.mandatory && entry.modId == modId with
  | some winner =>
    let _ ← addRule (.mandatory winner.choice) none
    let _ ← addRule (.overriddenSet modId winner.choice []) none
  | none =>
    let _ ← addRule (.optionalSet modId []) none

/-! ### Links -/

/-- Registers a branch below a choice. -/
def addBranch (source : ChoiceId) (label : String) : Engine.Action ChoiceId := do
  let engine ← get
  addChoice (.branch (engine.choices.describe source ++ " (" ++ label ++ ")")) 0

/-- Registers a branch for each of several parts. -/
def addBranches (source : ChoiceId) (noun : String) (count : Nat) :
    Engine.Action (List ChoiceId) :=
  (List.range count).mapM fun place => addBranch source s!"{noun} {place + 1}"

/-- Registers a branch for an exception, if there is one. -/
def addException (source : ChoiceId) (exception : Option Dependency) :
    Engine.Action (Option ChoiceId) :=
  match exception with
  | none => return none
  | some _ => some <$> addBranch source "exception"

mutual

/-- Adds the rules of a dependency of a source. -/
def addDependency (source : ChoiceId) (parent : Option RuleId) :
    Dependency → Engine.Action Unit
  | .only modId versions optional exception => do
    let branch ← addException source exception
    let id ← addRule (.dependsOnly source ⟨modId, versions, optional⟩ branch [] []) parent
    addExceptionRules branch id exception
  | .any alternatives exception => do
    let branches ← addBranches source "alternative" alternatives.length
    let branch ← addException source exception
    let id ← addRule (.dependsAny source branches branch) parent
    addAlternatives id branches alternatives
    addExceptionRules branch id exception

/-- Adds the rules of an exception below a rule, whose source is the branch of the exception. -/
def addExceptionRules (branch : Option ChoiceId) (parent : RuleId) :
    Option Dependency → Engine.Action Unit
  | none => return ()
  | some exception =>
    match branch with
    | none => return ()
    | some branch => addDependency branch (some parent) exception

/-- Adds the rules of alternatives below a rule, each with a branch as its source. -/
def addAlternatives (parent : RuleId) (branches : List ChoiceId) :
    List Dependency → Engine.Action Unit
  | [] => return ()
  | alternative :: rest =>
    match branches with
    | [] => return ()
    | branch :: branches => do
      addDependency branch (some parent) alternative
      addAlternatives parent branches rest

end

mutual

/-- Adds the rules of a breakage of a source. -/
def addBreakage (source : ChoiceId) (role : BreakRole) (parent : Option RuleId) :
    Breakage → Engine.Action Unit
  | .only modId versions _ exception => do
    let branch ← addException source exception
    let id ← addRule (.breaksOnly source ⟨modId, versions, false⟩ branch role []) parent
    addExceptionRules branch id exception
  | .all parts exception => do
    let branches ← addBranches source "part" parts.length
    let branch ← addException source exception
    let id ← addRule (.breaksAll source branches branch role) parent
    addParts id branches parts
    addExceptionRules branch id exception

/-- Adds the rules of the parts of a combination, each with a branch as its source. -/
def addParts (parent : RuleId) (branches : List ChoiceId) :
    List Breakage → Engine.Action Unit
  | [] => return ()
  | part :: rest =>
    match branches with
    | [] => return ()
    | branch :: branches => do
      addBreakage branch .part (some parent) part
      addParts parent branches rest

end

/-- Adds the rules of everything that a candidate declares. -/
def addLinks (registered : Registered) : Engine.Action Unit := do
  registered.candidate.depends.forM (addDependency registered.choice none)
  registered.candidate.breaks.forM (addBreakage registered.choice .standalone none)

/-- Makes choices and rules of a request. -/
def addRequest (bias : Int) (request : Request) : Engine.Action (List Registered) := do
  let registered ← registerCandidates bias request
  (allModIds request registered).forM (addSetRules registered)
  registered.forM addLinks
  return registered

end Resolver

end Loadout
