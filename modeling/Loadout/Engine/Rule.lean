/-
**Rules over choices.**

A `Rule` is a mandatory choice, a set of choices of one mod id, or a *link*: a dependency or a
breakage that a source choice declares. A link to one mod id follows the registered choices of that
id (`Rule.choiceAdded`, `Rule.choiceRemoved`); a composite link names branch choices, each of which
is the source of a link of its own. An exception is a branch that switches the link off when it is
true.

`Rule.define` says what a rule means, in cardinalities:

* a dependency holds when its source is false, its exception is true, or one of its matching
  choices or alternatives is true; an optional one only forbids the choices that do not match;
* a breakage with the role `standalone` forbids its source together with a conflicting choice, or
  with all of its parts at once;
* a breakage with the role `part` makes its source true when a conflicting choice, or all of its
  parts, are true.
-/

import Loadout.Constraint
import Loadout.Engine.Cardinality

namespace Loadout

/-- The target of a link to one mod id. -/
structure Link where
  modId : String
  versions : Constraint
  /-- An optional dependency does not pull its target in. -/
  optional : Bool
deriving DecidableEq, Repr, Inhabited

namespace Link

/-- Whether a registered choice of the link's mod id matches; `none` for all other choices. -/
def accepts? (link : Link) (table : ChoiceTable) (id : ChoiceId) : Option Bool :=
  match table.choice? id with
  | none => none
  | some choice =>
    if choice.modId? = some link.modId then
      some ((choice.version?.map link.versions.accepts).getD false)
    else none

/-- The link as texts show it. -/
def text (link : Link) : String :=
  if link.versions.acceptsAll then link.modId ++ " (any version)"
  else link.modId ++ " " ++ link.versions.text

end Link

/-- Whether a breakage stands on its own or is a part of a combination. -/
inductive BreakRole
  | standalone
  | part
deriving DecidableEq, Repr, Inhabited

/-- A relation between choices. -/
inductive Rule
  /-- The choice is loaded. -/
  | mandatory (choice : ChoiceId)
  /-- At most one choice of the mod id is loaded. -/
  | optionalSet (modId : String) (members : List ChoiceId)
  /-- No choice of the mod id is loaded but the mandatory one. -/
  | overriddenSet (modId : String) (winner : ChoiceId) (members : List ChoiceId)
  /-- The source depends on a choice of one mod id. -/
  | dependsOnly (source : ChoiceId) (link : Link) (exception : Option ChoiceId)
    (valid invalid : List ChoiceId)
  /-- The source depends on one of several branches. -/
  | dependsAny (source : ChoiceId) (alternatives : List ChoiceId) (exception : Option ChoiceId)
  /-- The source breaks choices of one mod id. -/
  | breaksOnly (source : ChoiceId) (link : Link) (exception : Option ChoiceId) (role : BreakRole)
    (conflicts : List ChoiceId)
  /-- The source breaks the combination of several branches. -/
  | breaksAll (source : ChoiceId) (parts : List ChoiceId) (exception : Option ChoiceId)
    (role : BreakRole)
deriving DecidableEq, Repr, Inhabited

namespace Rule

/-! ### Parts of rules -/

/-- The choice that declares a link. -/
def source? : Rule → Option ChoiceId
  | .dependsOnly source _ _ _ _ => some source
  | .dependsAny source _ _ => some source
  | .breaksOnly source _ _ _ _ => some source
  | .breaksAll source _ _ _ => some source
  | _ => none

/-- The branch that switches a link off. -/
def exception? : Rule → Option ChoiceId
  | .dependsOnly _ _ exception _ _ => exception
  | .dependsAny _ _ exception => exception
  | .breaksOnly _ _ exception _ _ => exception
  | .breaksAll _ _ exception _ => exception
  | _ => none

/-- Whether the rule is a dependency. -/
def isDependency : Rule → Bool
  | .dependsOnly .. => true
  | .dependsAny .. => true
  | _ => false

/-- Whether the rule is a breakage. -/
def isBreakage : Rule → Bool
  | .breaksOnly .. => true
  | .breaksAll .. => true
  | _ => false

/-- Whether the rule is a dependency or a breakage. -/
def isLink (rule : Rule) : Bool :=
  rule.isDependency || rule.isBreakage

/-- Whether the rule makes a choice mandatory. -/
def isMandatory : Rule → Bool
  | .mandatory _ => true
  | _ => false

/-! ### Following the registered choices -/

/-- Adds a choice at the end unless it is there; the answer says whether it was added. -/
def insertNew (id : ChoiceId) (members : List ChoiceId) : Bool × List ChoiceId :=
  if members.contains id then (false, members) else (true, members ++ [id])

/-- The rule after a choice was registered, and whether the rule has changed. -/
def choiceAdded (table : ChoiceTable) (id : ChoiceId) : Rule → Bool × Rule
  | .optionalSet modId members =>
    if table.modId? id = some modId then
      let (changed, members) := insertNew id members
      (changed, .optionalSet modId members)
    else (false, .optionalSet modId members)
  | .overriddenSet modId winner members =>
    if table.root id ≠ winner ∧ table.modId? id = some modId then
      let (changed, members) := insertNew id members
      (changed, .overriddenSet modId winner members)
    else (false, .overriddenSet modId winner members)
  | .dependsOnly source link exception valid invalid =>
    match link.accepts? table id with
    | some true =>
      let (changed, valid) := insertNew id valid
      (changed, .dependsOnly source link exception valid invalid)
    | some false =>
      let (changed, invalid) := insertNew id invalid
      (changed, .dependsOnly source link exception valid invalid)
    | none => (false, .dependsOnly source link exception valid invalid)
  | .breaksOnly source link exception role conflicts =>
    match link.accepts? table id with
    | some true =>
      let (changed, conflicts) := insertNew id conflicts
      (changed, .breaksOnly source link exception role conflicts)
    | _ => (false, .breaksOnly source link exception role conflicts)
  | rule => (false, rule)

/-- The rule after a choice was removed, and whether the rule names the choice. -/
def choiceRemoved (id : ChoiceId) : Rule → Bool × Rule
  | .mandatory choice => (choice == id, .mandatory choice)
  | .optionalSet modId members =>
    (members.contains id, .optionalSet modId (members.erase id))
  | .overriddenSet modId winner members =>
    (members.contains id || winner == id, .overriddenSet modId winner (members.erase id))
  | .dependsOnly source link exception valid invalid =>
    (valid.contains id || invalid.contains id || source == id || exception == some id,
      .dependsOnly source link exception (valid.erase id) (invalid.erase id))
  | .dependsAny source alternatives exception =>
    (alternatives.contains id || source == id || exception == some id,
      .dependsAny source alternatives exception)
  | .breaksOnly source link exception role conflicts =>
    (conflicts.contains id || source == id || exception == some id,
      .breaksOnly source link exception role (conflicts.erase id))
  | .breaksAll source parts exception role =>
    (parts.contains id || source == id || exception == some id,
      .breaksAll source parts exception role)

/-! ### Meaning -/

/-- The handles that are true with the given choices. -/
def allOf (choices : List ChoiceId) : List Handle :=
  choices.map Handle.ofChoice

/-- The handle that is true when a choice is false. -/
def noneOf (table : ChoiceTable) (choice : ChoiceId) : Handle :=
  (table.resolve (.ofChoice choice)).negate

/-- The clause by which a breakage of `targets` holds: together with its source they are not all
true, or they make the source true, or the exception is. -/
def breakClause (source : ChoiceId) (exception : Option ChoiceId) (role : BreakRole)
    (table : ChoiceTable) (targets : List ChoiceId) : List Handle :=
  let targets := targets.map (noneOf table)
  match role with
  | .standalone => noneOf table source :: targets ++ allOf exception.toList
  | .part => targets ++ allOf exception.toList ++ [Handle.ofChoice source]

/-- The cardinalities that the rule stands for. -/
def define (table : ChoiceTable) (id : RuleId) : Rule → Except DefinitionError (List Cardinality)
  | .mandatory choice => do
    return [← Cardinality.atLeastOneOf table id [.ofChoice choice]]
  | .optionalSet _ members =>
    if members.length < 2 then .ok []
    else do return [← Cardinality.atMost table id 1 (allOf members)]
  | .overriddenSet _ _ members => do
    return [← Cardinality.atMost table id 0 (allOf members)]
  | .dependsOnly source link exception valid invalid =>
    if link.optional then
      invalid.mapM fun choice =>
        Cardinality.atLeastOneOf table id
          (noneOf table source :: noneOf table choice :: allOf exception.toList)
    else do
      return [← Cardinality.atLeastOneOf table id
        (noneOf table source :: allOf valid ++ allOf exception.toList)]
  | .dependsAny source alternatives exception => do
    return [← Cardinality.atLeastOneOf table id
      (noneOf table source :: allOf alternatives ++ allOf exception.toList)]
  | .breaksOnly source _ exception role conflicts =>
    conflicts.mapM fun choice =>
      Cardinality.atLeastOneOf table id (breakClause source exception role table [choice])
  | .breaksAll source parts exception role =>
    if parts.isEmpty then .ok []
    else do
      return [← Cardinality.atLeastOneOf table id (breakClause source exception role table parts)]

/-! ### Texts -/

/-- The name of the kind of rule. -/
def kind : Rule → String
  | .mandatory _ => "mandatory"
  | .optionalSet .. => "optional-set"
  | .overriddenSet .. => "overridden-set"
  | .dependsOnly .. => "depends-only"
  | .dependsAny .. => "depends-any"
  | .breaksOnly .. => "breaks-only"
  | .breaksAll .. => "breaks-all"

/-- The names of choices, in brackets. -/
def nameList (choices : List ChoiceId) : String :=
  "[" ++ ", ".intercalate (choices.map ChoiceId.name) ++ "]"

/-- The rule in the terms of its choices' numbers. -/
def text (rule : Rule) : String :=
  let body := match rule with
    | .mandatory choice => ChoiceId.name choice
    | .optionalSet modId members => modId ++ " " ++ nameList members
    | .overriddenSet modId winner members =>
      modId ++ " by " ++ ChoiceId.name winner ++ " " ++ nameList members
    | .dependsOnly source link _ valid _ =>
      ChoiceId.name source ++ " -> " ++ link.text ++ " " ++ nameList valid
    | .dependsAny source alternatives _ =>
      ChoiceId.name source ++ " -> any " ++ nameList alternatives
    | .breaksOnly source link _ _ conflicts =>
      ChoiceId.name source ++ " x " ++ link.text ++ " " ++ nameList conflicts
    | .breaksAll source parts _ _ => ChoiceId.name source ++ " x all " ++ nameList parts
  let exception := match rule.exception? with
    | some exception => " unless " ++ ChoiceId.name exception
    | none => ""
  "(" ++ rule.kind ++ ") " ++ body ++ exception

/-- The rule in general words, in the terms of its choices' descriptions. -/
def describe (table : ChoiceTable) (rule : Rule) : String :=
  let body := match rule with
    | .mandatory choice => table.describe choice ++ " is mandatory"
    | .optionalSet modId members =>
      "Only one candidate of " ++ modId ++ " can be loaded: " ++ table.describeAll members
    | .overriddenSet modId winner _ =>
      table.describe winner ++ " is mandatory, so no other candidate of " ++ modId ++
        " can be loaded"
    | .dependsOnly source link _ _ _ => table.describe source ++ " requires " ++ link.text
    | .dependsAny source alternatives _ =>
      table.describe source ++ s!" requires one of {alternatives.length} alternatives"
    | .breaksOnly source link _ _ _ => table.describe source ++ " breaks " ++ link.text
    | .breaksAll source parts _ _ =>
      table.describe source ++ s!" breaks a combination of {parts.length} mods"
  match rule.exception? with
  | some exception => body ++ " (unless " ++ table.describe exception ++ ")"
  | none => body

end Rule

end Loadout
