/-
**The order of the candidates in a pool does not matter.**

A pool is ranked before anything else is done with it, and where no two candidates have one key
there is one way to rank them:

* `ranked_shuffled`: candidates in another order are ranked alike;
* `registerPools_shuffled`, `addRequest_shuffled`: they are registered alike, and so are the rules;
* **`resolve_shuffled`**: requests that differ in the order of candidates within their pools come to
  the same, errors included.
-/

import Loadout.Proofs.Resolver.Faults
import Loadout.Proofs.Resolver.Ranking
import Loadout.Proofs.Resolver.Reordering

namespace Loadout

/-- The pools of two requests are the same, with their candidates in another order. -/
def Request.Shuffled (request request' : Request) : Prop :=
  List.Forall₂ (fun pool pool' => pool.1 = pool'.1 ∧ pool.2.Perm pool'.2)
    request.pools.entries request'.pools.entries

namespace Resolver

variable {request request' : Request}

/-- **Candidates in another order are ranked alike**, where no two have one key. -/
theorem ranked_shuffled {pool pool' : List Candidate} (order : pool.Perm pool')
    (distinct : (pool.map Candidate.key).Nodup) : ranked pool = ranked pool' := by
  have perm : (ranked pool').Perm pool := (ranked_perm pool').trans order.symm
  exact ranked_eq perm (ranked_outranks ((perm.map _).nodup_iff.mpr distinct))

/-- Pools with their candidates in another order are registered alike. -/
theorem registerPools_shuffled (bias : Int) {pools pools' : List (String × List Candidate)}
    (shuffled : List.Forall₂ (fun pool pool' => pool.1 = pool'.1 ∧ pool.2.Perm pool'.2)
      pools pools')
    (distinct : (pools.flatMap fun pool => pool.2.map Candidate.key).Nodup)
    (keys : List String) : registerPools bias keys pools = registerPools bias keys pools' := by
  induction shuffled generalizing keys with
  | nil => rfl
  | @cons pool pool' rest rest' same _ ih =>
    obtain ⟨modId, candidates⟩ := pool
    obtain ⟨modId', candidates'⟩ := pool'
    obtain ⟨rfl, order⟩ : modId = modId' ∧ candidates.Perm candidates' := same
    obtain ⟨own, others, _⟩ := List.nodup_append.mp (List.flatMap_cons ▸ distinct)
    unfold registerPools
    rw [ranked_shuffled order own]
    simp only [ih others]

/-- Choices and rules are made of a shuffled request alike. -/
theorem addRequest_shuffled (bias : Int) (shuffled : request.Shuffled request')
    (distinct : (request.candidates.map fun entry => entry.2.key).Nodup) :
    addRequest bias request = addRequest bias request' := by
  have keys : request.candidates.map (fun entry => entry.2.key) =
      request.pools.entries.flatMap fun pool => pool.2.map Candidate.key := by
    unfold Request.candidates
    rw [List.map_flatMap]
    exact List.flatMap_congr fun pool _ => by rw [List.map_map]; rfl
  have pools := registerPools_shuffled bias shuffled (keys ▸ distinct) []
  have mods : request.pools.keys = request'.pools.keys :=
    map_eq_of_forall₂ shuffled fun _ _ same => same.1
  unfold addRequest registerCandidates allModIds
  rw [pools, mods]

/-- **The order of the candidates in a pool does not matter.** Where no key occurs twice, requests
that differ in nothing but the order of candidates within their pools come to the same: the same
resolution with its entries in the same order, the same problems, or the same error, whatever the
resolver is and whatever happens outside. -/
theorem resolve_shuffled (shuffled : request.Shuffled request')
    (distinct : (request.candidates.map fun entry => entry.2.key).Nodup) (resolver : Resolver) :
    resolve request resolver = resolve request' resolver ∧
      ∀ events, resolveAmid events request resolver = resolveAmid events request' resolver := by
  have same : resolution resolver.config request = resolution resolver.config request' := by
    unfold resolution
    rw [addRequest_shuffled _ shuffled distinct]
  constructor
  · unfold resolve
    rw [same]
  · intro events
    unfold resolveAmid
    rw [same]

/-- Two mandatory candidates of one mod id, which is an error, in either order. -/
def rivals (first second : Candidate) : Request :=
  ⟨⟨[("app", [first.asMandatory, second.asMandatory])], List.nodup_singleton _⟩⟩

/-- The error names the better one first, wherever it stands. -/
theorem resolve_shuffled_of_rivals :
    let old := Candidate.plain "app 1" (.ofNumbers [1])
    let new := Candidate.plain "app 2" (.ofNumbers [2])
    (rivals new old).Shuffled (rivals old new) ∧
      ((rivals new old).candidates.map fun entry => entry.2.key).Nodup ∧
      resolve (rivals old new) (ofConfig .standard) =
        (.error (.definition (.duplicateMandatory "app" "app 2" "app 1")), ofConfig .standard) := by
  intro old new
  have shuffled : (rivals new old).Shuffled (rivals old new) :=
    .cons ⟨rfl, .swap _ _ _⟩ .nil
  have distinct : ((rivals new old).candidates.map fun entry => entry.2.key).Nodup := by decide
  refine ⟨shuffled, distinct, ?_⟩
  rw [← (resolve_shuffled shuffled distinct (ofConfig .standard)).1]
  have best : ranked [new.asMandatory, old.asMandatory] = [new.asMandatory, old.asMandatory] :=
    ranked_eq .rfl (by decide +kernel)
  unfold resolve resolution addRequest registerCandidates rivals
  simp only [registerPools, best]
  rfl

end Resolver

end Loadout
