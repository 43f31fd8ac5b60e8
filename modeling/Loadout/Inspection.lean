/-
**What a request says, without resolving it.**

An `Inspection` counts what a request declares, lists the mod ids that links mention and nobody
stands for (`Inspection.unknownIds`), and finds the faults for which the request would be refused:
a mod id with several mandatory candidates, and a key that several candidates have.
-/

import Loadout.Request

namespace Loadout

/-- What makes a request unusable. -/
inductive Fault
  | mandatoryTwice (modId : String) (keys : List String)
  | keyTwice (key : String)
deriving DecidableEq, Repr, Inhabited

/-- The description of a fault. -/
def Fault.message : Fault → String
  | .mandatoryTwice modId keys =>
    "Mod id '" ++ modId ++ "' is mandatory more than once: " ++ ", ".intercalate keys
  | .keyTwice key => "Candidate key '" ++ key ++ "' is used more than once"

namespace Request

/-- The mod ids that links mention, in order, repetitions included. -/
def mentions (request : Request) : List String :=
  request.candidates.flatMap fun (_, candidate) => candidate.mentions

/-- The keys of the candidates that declare to provide a mod id, by mod id. -/
def providers (request : Request) : OrderedMap (List String) :=
  request.candidates.foldl (fun map (_, candidate) =>
    candidate.provides.foldl (fun map provided => map.append provided.modId candidate.key) map)
    .empty

/-- The fault of a pool with several mandatory candidates. -/
def mandatoryFaults (modId : String) (pool : List Candidate) : List Fault :=
  let keys := (pool.filter (·.mandatory)).map (·.key)
  if 1 < keys.length then [.mandatoryTwice modId keys] else []

/-- The faults of keys that came before; `seen` came before all of them. -/
def keyFaults (seen : List String) : List String → List Fault
  | [] => []
  | key :: rest =>
    if seen.contains key then .keyTwice key :: keyFaults seen rest else keyFaults (key :: seen) rest

/-- The faults of some pools, whose candidates follow those with the keys `seen`. -/
def poolFaults (seen : List String) : List (String × List Candidate) → List Fault
  | [] => []
  | (modId, pool) :: rest =>
    mandatoryFaults modId pool ++ keyFaults seen (pool.map (·.key)) ++
      poolFaults (pool.map (·.key) ++ seen) rest

end Request

/-- What a request says. -/
structure Inspection where
  pools : Nat
  candidates : Nat
  mandatory : Nat
  /-- The number of links to one mod id in dependencies, exceptions included. -/
  dependencies : Nat
  /-- The number of links to one mod id in breakages, exceptions included. -/
  breakages : Nat
  /-- The keys of the candidates that provide a mod id. -/
  provided : OrderedMap (List String)
  /-- The mod ids that links mention and nobody stands for, in the order of first mention. -/
  unknownIds : List String
  faults : List Fault
deriving Inhabited

namespace Inspection

/-- Inspects a request. -/
def ofRequest (request : Request) : Inspection :=
  let candidates := request.candidates.map Prod.snd
  let provided := request.providers
  { pools := request.pools.entries.length
    candidates := request.size
    mandatory := (candidates.filter (·.mandatory)).length
    dependencies := (candidates.flatMap fun candidate =>
      Dependency.listModIds candidate.depends).length
    breakages := (candidates.flatMap fun candidate =>
      Breakage.listModIds candidate.breaks).length
    provided := provided
    unknownIds := (request.mentions.filter fun modId =>
      !request.pools.keys.contains modId && !provided.keys.contains modId).eraseDups
    faults := Request.poolFaults [] request.pools.entries }

/-- Whether the request can be used. If it is judged strictly, every link has to name a known mod
id. -/
def isValid (strict : Bool) (inspection : Inspection) : Bool :=
  inspection.faults.isEmpty && (!strict || inspection.unknownIds.isEmpty)

end Inspection

end Loadout
