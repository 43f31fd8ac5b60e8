/-
**Requests: the candidates of mods and what they declare.**

A `Request` holds a pool of candidates for each mod id. A candidate may be mandatory, may depend
on other mods, break them, and provide further mod ids. Dependencies and breakages are trees:

* a link to one mod id, with the versions it is about, perhaps optional;
* any one of several dependencies (`Dependency.any`), or all of several breakages together
  (`Breakage.all`).

Each of them may have an exception, a dependency that switches it off while it holds.
-/

import Loadout.Constraint
import Loadout.OrderedMap

namespace Loadout

/-- What a candidate depends on. -/
inductive Dependency
  /-- A mod of one id. An optional dependency only forbids the versions that do not match. -/
  | only (modId : String) (versions : Constraint) (optional : Bool)
    (exception : Option Dependency)
  /-- Any one of several dependencies. -/
  | any (alternatives : List Dependency) (exception : Option Dependency)
deriving Repr, Inhabited

/-- What a candidate cannot be loaded with. -/
inductive Breakage
  /-- Any mod of one id with a matching version; being optional means nothing here. -/
  | only (modId : String) (versions : Constraint) (optional : Bool)
    (exception : Option Dependency)
  /-- Several breakages at once. -/
  | all (parts : List Breakage) (exception : Option Dependency)
deriving Repr, Inhabited

/-- A link to one mod id, on its own. -/
structure Target where
  modId : String
  versions : Constraint
  optional : Bool
  exception : Option Dependency
deriving Repr, Inhabited

namespace Target

/-- The link to any version of a mod. -/
def toMod (modId : String) : Target :=
  ⟨modId, .any, false, none⟩

/-- The dependency on the target. -/
def dependency (target : Target) : Dependency :=
  .only target.modId target.versions target.optional target.exception

/-- The breakage of the target. -/
def breakage (target : Target) : Breakage :=
  .only target.modId target.versions target.optional target.exception

end Target

/-- A further mod id that a candidate stands for. -/
structure Provided where
  modId : String
  /-- The version it counts as; that of the candidate if none is given. -/
  version : Option Version
deriving DecidableEq, Repr, Inhabited

/-- One loadable version of a mod. -/
structure Candidate where
  /-- The name by which a resolution reports the candidate. -/
  key : String
  version : Version
  mandatory : Bool
  /-- What the request adds to the weight of the candidate. -/
  weight : Int
  depends : List Dependency
  breaks : List Breakage
  provides : List Provided
deriving Repr, Inhabited

namespace Candidate

/-- The candidate that declares nothing. -/
def plain (key : String) (version : Version) : Candidate :=
  ⟨key, version, false, 0, [], [], []⟩

/-- Makes the candidate mandatory. -/
def asMandatory (candidate : Candidate) : Candidate :=
  { candidate with mandatory := true }

/-- Sets what the request adds to the weight. -/
def withWeight (weight : Int) (candidate : Candidate) : Candidate :=
  { candidate with weight }

/-- Adds a dependency. -/
def dependingOn (dependency : Dependency) (candidate : Candidate) : Candidate :=
  { candidate with depends := candidate.depends ++ [dependency] }

/-- Adds a breakage. -/
def breaking (breakage : Breakage) (candidate : Candidate) : Candidate :=
  { candidate with breaks := candidate.breaks ++ [breakage] }

/-- Adds a mod id that the candidate stands for. -/
def providing (provided : Provided) (candidate : Candidate) : Candidate :=
  { candidate with provides := candidate.provides ++ [provided] }

/-- What a candidate of a mod id provides in earnest: the first mention of each mod id other than
its own. -/
def extras (modId : String) (candidate : Candidate) : List Provided :=
  (candidate.provides.filter fun provided => provided.modId != modId).foldl
    (fun kept provided =>
      if kept.any fun other => other.modId == provided.modId then kept else kept ++ [provided])
    []

end Candidate

/-- The pools of candidates by mod id. -/
structure Request where
  pools : OrderedMap (List Candidate)
deriving Inhabited

namespace Request

/-- The request without pools. -/
def empty : Request :=
  ⟨.empty⟩

/-- Makes sure that there is a pool for a mod id, and adds candidates to it. -/
def addPool (modId : String) (candidates : List Candidate) (request : Request) : Request :=
  ⟨request.pools.alter modId fun pool => pool.getD [] ++ candidates⟩

/-- The request of some pools; those of one mod id are joined. -/
def ofPools (pools : List (String × List Candidate)) : Request :=
  pools.foldl (fun request pool => request.addPool pool.1 pool.2) empty

/-- The candidates of a mod id. -/
def pool (request : Request) (modId : String) : List Candidate :=
  (request.pools.get? modId).getD []

/-- All candidates with their mod ids. -/
def candidates (request : Request) : List (String × Candidate) :=
  request.pools.entries.flatMap fun (modId, pool) => pool.map fun candidate => (modId, candidate)

/-- How many candidates there are. -/
def size (request : Request) : Nat :=
  request.candidates.length

end Request

/-! ### The mod ids that links name -/

mutual

/-- The mod ids that a dependency names, exceptions included, in the order of their mention. -/
def Dependency.modIds : Dependency → List String
  | .only modId _ _ exception => modId :: Dependency.exceptionModIds exception
  | .any alternatives exception =>
    Dependency.listModIds alternatives ++ Dependency.exceptionModIds exception

/-- The mod ids that an exception names. -/
def Dependency.exceptionModIds : Option Dependency → List String
  | none => []
  | some exception => exception.modIds

/-- The mod ids that several dependencies name. -/
def Dependency.listModIds : List Dependency → List String
  | [] => []
  | dependency :: rest => dependency.modIds ++ Dependency.listModIds rest

end

mutual

/-- The mod ids that a breakage names, exceptions included, in the order of their mention. -/
def Breakage.modIds : Breakage → List String
  | .only modId _ _ exception => modId :: Dependency.exceptionModIds exception
  | .all parts exception => Breakage.listModIds parts ++ Dependency.exceptionModIds exception

/-- The mod ids that several breakages name. -/
def Breakage.listModIds : List Breakage → List String
  | [] => []
  | breakage :: rest => breakage.modIds ++ Breakage.listModIds rest

end

/-- The mod ids that the links of a candidate name, those of its dependencies first. -/
def Candidate.mentions (candidate : Candidate) : List String :=
  Dependency.listModIds candidate.depends ++ Breakage.listModIds candidate.breaks

end Loadout
