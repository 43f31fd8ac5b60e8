/-
**Which candidates may be loaded together.**

Loaded candidates offer their own mod id and those that they provide, each in a version. What they
depend on and what they break is judged by these offers alone:

* `Dependency.holds`: a link holds when some offer of its mod id matches, an optional one when every
  such offer does; any one alternative is enough, and so is the exception;
* `Breakage.isActive`: a link is active when some offer of its mod id matches, a combination when it
  has parts and all of them are active; none is while its exception holds.

A selection is `Request.Admissible` when it has all mandatory candidates, no mod id is offered
twice, every dependency of a loaded candidate holds and none of its breakages is active.
-/

import Loadout.Request

namespace Loadout

/-- A mod id that is there, and the version in which it is. -/
structure Offer where
  modId : String
  version : Version
deriving DecidableEq, Repr, Inhabited

/-- What a candidate of a mod id offers when it is loaded. -/
def Candidate.offers (modId : String) (candidate : Candidate) : List Offer :=
  ⟨modId, candidate.version⟩ :: (candidate.extras modId).map fun provided =>
    ⟨provided.modId, provided.version.getD candidate.version⟩

namespace Offer

/-- Whether an offer is of a mod id and in a version that matches. -/
def meets (modId : String) (versions : Constraint) (offer : Offer) : Bool :=
  offer.modId == modId && versions.accepts offer.version

/-- Whether an offer is of a mod id and in a version that does not match. -/
def misses (modId : String) (versions : Constraint) (offer : Offer) : Bool :=
  offer.modId == modId && !versions.accepts offer.version

end Offer

/-! ### Dependencies -/

mutual

/-- Whether a dependency holds where some offers are there. -/
def Dependency.holds (offers : List Offer) : Dependency → Bool
  | .only modId versions optional exception =>
    (if optional then !offers.any (Offer.misses modId versions)
    else offers.any (Offer.meets modId versions)) || Dependency.exceptionHolds offers exception
  | .any alternatives exception =>
    Dependency.someHolds offers alternatives || Dependency.exceptionHolds offers exception

/-- Whether there is an exception and it holds. -/
def Dependency.exceptionHolds (offers : List Offer) : Option Dependency → Bool
  | none => false
  | some exception => exception.holds offers

/-- Whether one of several dependencies holds. -/
def Dependency.someHolds (offers : List Offer) : List Dependency → Bool
  | [] => false
  | dependency :: rest => dependency.holds offers || Dependency.someHolds offers rest

end

/-! ### Breakages -/

mutual

/-- Whether a breakage is active where some offers are there. -/
def Breakage.isActive (offers : List Offer) : Breakage → Bool
  | .only modId versions _ exception =>
    offers.any (Offer.meets modId versions) && !Dependency.exceptionHolds offers exception
  | .all parts exception =>
    !parts.isEmpty && Breakage.allActive offers parts &&
      !Dependency.exceptionHolds offers exception

/-- Whether several breakages are all active. -/
def Breakage.allActive (offers : List Offer) : List Breakage → Bool
  | [] => true
  | breakage :: rest => breakage.isActive offers && Breakage.allActive offers rest

end

/-! ### Selections -/

namespace Request

/-- What candidates with their mod ids offer together. -/
def offers (loaded : List (String × Candidate)) : List Offer :=
  loaded.flatMap fun (modId, candidate) => candidate.offers modId

/-- **Whether candidates of a request may be loaded together.** -/
structure Admissible (request : Request) (loaded : List (String × Candidate)) : Prop where
  /-- Only candidates of the request are loaded. -/
  known : ∀ entry ∈ loaded, entry ∈ request.candidates
  /-- All mandatory candidates are loaded. -/
  mandatory : ∀ entry ∈ request.candidates, entry.2.mandatory = true → entry ∈ loaded
  /-- No mod id is offered twice. -/
  unique : ((offers loaded).map Offer.modId).Nodup
  /-- Every dependency of a loaded candidate holds. -/
  depends : ∀ entry ∈ loaded, ∀ dependency ∈ entry.2.depends,
    dependency.holds (offers loaded) = true
  /-- No breakage of a loaded candidate is active. -/
  breaks : ∀ entry ∈ loaded, ∀ breakage ∈ entry.2.breaks,
    breakage.isActive (offers loaded) = false

/-- Nothing needs to be loaded where no candidate is mandatory. -/
theorem admissible_nil {request : Request}
    (free : ∀ entry ∈ request.candidates, entry.2.mandatory = false) :
    request.Admissible [] where
  known := by simp
  mandatory := fun entry inside forced => by simp [free entry inside] at forced
  unique := by simp [offers]
  depends := by simp
  breaks := by simp

end Request

end Loadout
