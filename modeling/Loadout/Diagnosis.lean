/-
**Why rules cannot hold together, in words.**

`Engine.diagnose` takes the rules of an engine apart: it asks for a conflict, turns it into a
`Problem`, removes one of its rules that is not mandatory, and goes on until the rest can hold
together or no rule is left to remove. Each round removes a rule, so the number of rules bounds the
rounds. No outermost rule is given as a cause twice.

The rule to remove is a dependency that nothing can satisfy, else another link, else a set of
choices of one mod id; among equals, the first.
-/

import Loadout.Engine

namespace Loadout

/-- One reason why a request has no solution. -/
structure Problem where
  /-- The mods that the explanation starts from. -/
  rootCauses : List String
  message : String
  /-- A line for each rule that takes part. -/
  rules : List String
deriving DecidableEq, Repr, Inhabited

namespace Problem

/-- The problem with its rules below it. -/
def describe (problem : Problem) : String :=
  "\n".intercalate (problem.message :: problem.rules.map fun line => "  - " ++ line)

/-- Problems with numbers, set apart by empty lines. -/
def describeAll (problems : List Problem) : String :=
  "\n\n".intercalate (problems.zipIdx.map fun (problem, place) =>
    s!"Problem {place + 1}:\n" ++ problem.describe)

end Problem

namespace Forest

/-! ### Words for rules -/

/-- What a link asks for or forbids, down to a depth: its target, or those of its branches. -/
def requirementTo (forest : Forest) : Nat → RuleId → String
  | 0, id => RuleId.name id
  | depth + 1, id =>
    let branches (branches : List ChoiceId) (separator : String) : String :=
      let parts := (forest.children id).filter fun child =>
        ((forest.rule? child).bind Rule.source?).any branches.contains
      "(" ++ separator.intercalate (parts.map (requirementTo forest depth)) ++ ")"
    match forest.rule? id with
    | none => RuleId.name id
    | some (.dependsOnly _ link _ _ _) => link.text
    | some (.breaksOnly _ link _ _ _) => link.text
    | some (.dependsAny _ alternatives _) => branches alternatives " or "
    | some (.breaksAll _ parts _ _) => branches parts " and "
    | some rule => rule.text

/-- What a link asks for or forbids. -/
def requirement (forest : Forest) (id : RuleId) : String :=
  forest.requirementTo (forest.nodes.size + 1) id

/-- The exception of a rule in words: what the part below it asks for that stands for it. -/
def exceptionText (forest : Forest) (table : ChoiceTable) (id : RuleId) (exception : ChoiceId) :
    String :=
  let part := (forest.children id).find? fun child =>
    (forest.rule? child).bind Rule.source? = some exception
  match part with
  | some part => forest.requirement part
  | none => table.describe exception

/-- A link in specific words, without its exception; `none` if there are none for the rule. -/
def linkText? (forest : Forest) (table : ChoiceTable) (id : RuleId) (rule : Rule) :
    Option String :=
  match rule with
  | .dependsOnly source link _ valid invalid =>
    if link.optional then
      some (table.describe source ++ " is incompatible with " ++ table.describeAll invalid ++
        " (" ++ link.modId ++ ") unless " ++ link.versions.text ++ " is used")
    else if !valid.isEmpty then
      some (table.describe source ++ " requires " ++ link.text ++ ", matched by " ++
        table.describeAll valid)
    else if invalid.isEmpty then
      some (table.describe source ++ " requires " ++ link.text ++ ", which is not available")
    else
      some (table.describe source ++ " requires " ++ link.text ++ ", but only " ++
        table.describeAll invalid ++ " are available")
  | .dependsAny source _ _ =>
    some (table.describe source ++ " requires any of " ++ forest.requirement id)
  | .breaksOnly source link _ .standalone conflicts =>
    some (table.describe source ++ " breaks " ++ link.text ++ ", which matches " ++
      table.describeAll conflicts)
  | .breaksAll source _ _ .standalone =>
    some (table.describe source ++ " breaks the combination of " ++ forest.requirement id)
  | _ => none

/-- A rule in words. -/
def ruleText (forest : Forest) (table : ChoiceTable) (id : RuleId) (rule : Rule) : String :=
  match forest.linkText? table id rule with
  | none => rule.describe table
  | some text =>
    match rule.exception? with
    | none => text
    | some exception =>
      text ++ ", unless " ++ forest.exceptionText table id exception ++ " is loaded"

/-! ### Causes -/

/-- Whether, down to a depth, some alternative of a dependency has a matching choice. -/
def satisfiableTo (forest : Forest) : Nat → RuleId → Bool
  | 0, _ => false
  | depth + 1, id =>
    (forest.children id).any fun child =>
      match forest.rule? child with
      | some (.dependsOnly _ _ _ valid _) => !valid.isEmpty
      | some (.dependsAny ..) => satisfiableTo forest depth child
      | _ => false

/-- How late a rule is removed; a mandatory choice never is. -/
def removalRank (forest : Forest) (id : RuleId) (rule : Rule) : Option Nat :=
  match rule with
  | .mandatory _ => none
  | .optionalSet .. => some 2
  | .overriddenSet .. => some 2
  | .dependsOnly _ _ _ valid _ => some (if valid.isEmpty then 0 else 1)
  | .dependsAny .. => some (if forest.satisfiableTo (forest.nodes.size + 1) id then 1 else 0)
  | _ => some 1

/-- The rule to remove from some causes, if any may be. -/
def pickRemoval (forest : Forest) (causes : List RuleId) : Option RuleId :=
  let ranked := causes.filterMap fun id =>
    ((forest.rule? id).bind (forest.removalRank id)).map fun rank => (rank, id)
  (ranked.foldl
    (fun best entry =>
      match best with
      | none => some entry
      | some best =>
        if entry.1 < best.1 ∨ entry.1 = best.1 ∧ entry.2 < best.2 then some entry
        else some best)
    none).map Prod.snd

/-- The mod id that a cause belongs to. -/
def causeModId? (table : ChoiceTable) : Rule → Option String
  | .optionalSet modId _ => some modId
  | .overriddenSet modId _ _ => some modId
  | rule => rule.source?.bind table.modId?

/-- The problem of mandatory rules and causes that cannot hold together. -/
def problemOf (forest : Forest) (table : ChoiceTable) (roots causes : List RuleId) : Problem :=
  let mandatory := roots.filterMap fun root =>
    match forest.rule? root with
    | some (.mandatory choice) => some choice
    | _ => none
  let modIds :=
    if mandatory.isEmpty then causes.filterMap fun cause =>
      (forest.rule? cause).bind (causeModId? table)
    else mandatory.filterMap table.modId?
  let lines := causes.filterMap fun cause =>
    (forest.rule? cause).map (forest.ruleText table cause)
  let names := table.describeAll mandatory
  { rootCauses := modIds.eraseDups
    message :=
      if mandatory.isEmpty then "Conflicting requirements:"
      else if lines.isEmpty then
        "The mandatory mods " ++ names ++ " cannot be loaded together"
      else "Cannot load the mandatory mods " ++ names ++ ":"
    rules := lines }

end Forest

namespace Engine

/-- The outermost rules of a conflict, ascending, each once. -/
def outermost (forest : Forest) (core : List RuleId) : List RuleId :=
  ((core.map forest.topLevel).mergeSort fun left right => left ≤ right).eraseDups

/-- Takes the rules apart in at most a number of rounds; `reported` are the causes given so far,
and `problems` the problems found, latest first. -/
def diagnoseRounds (limit : Option Nat) :
    Nat → List RuleId → List Problem → Engine → Outcome (List Problem)
  | 0, _, problems, engine => (.ok problems.reverse, engine)
  | rounds + 1, reported, problems, engine =>
    match engine.hasSolution with
    | (.error error, engine) => (.error error, engine)
    | (.ok true, engine) => (.ok problems.reverse, engine)
    | (.ok false, engine) =>
      match engine.lastConflict with
      | .error error => (.error error, engine)
      | .ok core =>
        let isMandatory (id : RuleId) : Bool := (engine.forest.rule? id).any Rule.isMandatory
        let (roots, causes) := (outermost engine.forest core).partition isMandatory
        let fresh := causes.filter fun cause => !reported.contains cause
        let problems :=
          if !fresh.isEmpty || causes.isEmpty then
            engine.forest.problemOf engine.choices roots fresh :: problems
          else problems
        if limit.any (· ≤ problems.length) then (.ok problems.reverse, engine)
        else
          match engine.forest.pickRemoval causes with
          | none => (.ok problems.reverse, engine)
          | some victim =>
            match engine.removeRule victim with
            | (.error error, engine) => (.error error, engine)
            | (.ok _, engine) =>
              diagnoseRounds limit rounds (reported ++ fresh) problems engine

/-- The problems of rules that cannot hold together, at most a number of them if one is given. -/
def diagnose (limit : Option Nat) (engine : Engine) : Outcome (List Problem) :=
  engine.diagnoseRounds limit (engine.forest.active + 1) [] []

end Engine

end Loadout
