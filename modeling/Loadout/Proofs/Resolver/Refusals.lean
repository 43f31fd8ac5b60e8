/-
**Requests that are not proper are refused.**

Where some key occurs twice or some pool has two mandatory candidates, its candidates are not
registered. So whatever comes of a request, it is proper:

* `Gives.of_bind`: where two actions succeed one after the other, each of them does;
* `proper_of_registerCandidates`: if its candidates are registered, a request is proper;
* **`proper_of_resolution`**: so it is if the request has an outcome.
-/

import Loadout.Proofs.Resolver.Registration
import Loadout.Resolver

namespace Loadout

namespace Engine

variable {α β : Type} {engine middle after : Engine}

/-- Where two actions succeed one after the other, each of them does. -/
theorem Gives.of_bind {action : Action α} {next : α → Action β} {final : β}
    (given : Gives (action >>= next) engine final after) :
    ∃ result middle,
      Gives action engine result middle ∧ Gives (next result) middle final after := by
  have run : ExceptT.bindCont next (action engine).1 (action engine).2 = (.ok final, after) := given
  cases done : action engine with
  | mk result middle =>
    rw [done] at run
    cases result with
    | error error => cases run
    | ok result => exact ⟨result, middle, done, run⟩

theorem not_gives_throw {error : SolverError} {result : α} :
    ¬Gives (throw error : Action α) engine result after := by
  intro given
  cases given

end Engine

namespace Resolver

open Engine

variable {bias : Int} {engine after : Engine}

/-- Where a candidate and those after it are registered, its key is new, no other one was mandatory
if it is, and those after it are registered with that in mind. -/
theorem rest_of_registerPool {modId : String} {candidate : Candidate} {rest : List Candidate}
    {place : Nat} {mandatory : Option String} {keys keys' : List String}
    {registered : List Registered}
    (given : Gives (registerPool bias modId place mandatory keys (candidate :: rest)) engine
      (registered, keys') after) :
    candidate.key ∉ keys ∧ ∃ mandatory' middle others,
      mandatory'.toList.length =
        mandatory.toList.length + (if candidate.mandatory then 1 else 0) ∧
      Gives (registerPool bias modId (place + 1) mandatory' (candidate.key :: keys) rest) middle
        (others, keys') after := by
  have later : ∀ mandatory', Gives (do
      let choice ← addChoice (choiceOf modId candidate) (derivedWeight bias place candidate)
      let later ← registerPool bias modId (place + 1) mandatory' (candidate.key :: keys) rest
      return (⟨modId, candidate, choice⟩ :: later.1, later.2)) engine (registered, keys') after →
      ∃ middle others, Gives (registerPool bias modId (place + 1) mandatory'
        (candidate.key :: keys) rest) middle (others, keys') after := by
    intro mandatory' given
    obtain ⟨choice, middle, _, given⟩ := given.of_bind
    obtain ⟨⟨others, keys''⟩, last, registers, given⟩ := given.of_bind
    cases given
    exact ⟨middle, others, registers⟩
  unfold registerPool at given
  by_cases met : keys.contains candidate.key = true
  · rw [if_pos met] at given
    exact absurd given not_gives_throw
  · rw [if_neg met] at given
    refine ⟨fun old => met (List.contains_iff_mem.mpr old), ?_⟩
    dsimp only at given
    by_cases must : candidate.mandatory = true
    · rw [if_pos must] at given
      rw [if_pos must]
      cases mandatory with
      | some first =>
        obtain ⟨_, _, refused, _⟩ := given.of_bind
        exact absurd refused not_gives_throw
      | none =>
        obtain ⟨middle, others, registers⟩ := later (some candidate.key) given
        exact ⟨_, middle, others, rfl, registers⟩
    · rw [if_neg must] at given
      rw [if_neg must]
      obtain ⟨middle, others, registers⟩ := later mandatory given
      exact ⟨_, middle, others, rfl, registers⟩

/-- **Where the candidates of a ranked pool are registered**, their keys are new and distinct, and
one of them is mandatory at most. -/
theorem fresh_of_registerPool {modId : String} {candidates : List Candidate} {place : Nat}
    {mandatory : Option String} {keys keys' : List String} {registered : List Registered}
    (given : Gives (registerPool bias modId place mandatory keys candidates) engine
      (registered, keys') after) :
    (∀ candidate ∈ candidates, candidate.key ∉ keys) ∧ (candidates.map Candidate.key).Nodup ∧
      mandatory.toList.length + candidates.countP Candidate.mandatory ≤ 1 ∧
      keys' = (candidates.map Candidate.key).reverse ++ keys := by
  induction candidates generalizing place mandatory keys engine registered with
  | nil =>
    unfold registerPool at given
    cases given
    refine ⟨fun _ inside => absurd inside List.not_mem_nil, List.nodup_nil, ?_, rfl⟩
    cases mandatory <;> simp
  | cons candidate rest ih =>
    obtain ⟨new, mandatory', middle, others, count, registers⟩ := rest_of_registerPool given
    obtain ⟨fresh, distinct, few, all⟩ := ih registers
    refine ⟨List.forall_mem_cons.mpr ⟨new, fun other inside old => ?_⟩, ?_, ?_, ?_⟩
    · exact fresh other inside (List.mem_cons_of_mem _ old)
    · rw [List.map_cons, List.nodup_cons]
      refine ⟨fun again => ?_, distinct⟩
      obtain ⟨other, inside, same⟩ := List.mem_map.mp again
      exact fresh other inside (same ▸ List.mem_cons_self)
    · rw [List.countP_cons]
      omega
    · rw [all, List.map_cons, List.reverse_cons, List.append_assoc]
      rfl

/-- Where the candidates of some pools are registered, their keys are new and distinct, and one of
each pool is mandatory at most. -/
theorem fresh_of_registerPools {pools : List (String × List Candidate)} {keys : List String}
    {registered : List Registered}
    (given : Gives (registerPools bias keys pools) engine registered after) :
    (∀ pool ∈ pools, ∀ candidate ∈ pool.2, candidate.key ∉ keys) ∧
      (pools.flatMap fun pool => pool.2.map Candidate.key).Nodup ∧
      ∀ pool ∈ pools, pool.2.countP Candidate.mandatory ≤ 1 := by
  induction pools generalizing keys engine registered with
  | nil =>
    exact ⟨fun _ inside => absurd inside List.not_mem_nil, List.nodup_nil,
      fun _ inside => absurd inside List.not_mem_nil⟩
  | cons pool rest ih =>
    obtain ⟨modId, pool⟩ := pool
    unfold registerPools at given
    obtain ⟨⟨first, keys'⟩, middle, one, given⟩ := given.of_bind
    obtain ⟨others, last, more, given⟩ := given.of_bind
    cases given
    obtain ⟨fresh, distinct, few, all⟩ := fresh_of_registerPool one
    obtain ⟨fresh', distinct', few'⟩ := ih more
    subst all
    have order := ranked_perm pool
    refine ⟨List.forall_mem_cons.mpr ⟨fun candidate inside => ?_, fun other inside candidate
      member old => ?_⟩, ?_, List.forall_mem_cons.mpr ⟨?_, few'⟩⟩
    · exact fresh candidate (order.mem_iff.mpr inside)
    · exact fresh' other inside candidate member (List.mem_append_right _ old)
    · rw [List.flatMap_cons, List.nodup_append]
      refine ⟨(order.map _).nodup_iff.mp distinct, distinct',
        fun key inside key' inside' same => ?_⟩
      obtain ⟨other, among, held⟩ := List.mem_flatMap.mp inside'
      obtain ⟨candidate, member, rfl⟩ := List.mem_map.mp held
      refine fresh' other among candidate member (List.mem_append_left _ ?_)
      rw [List.mem_reverse, (order.map _).mem_iff, ← same]
      exact inside
    · rw [← order.countP_eq]
      exact (Nat.zero_add _).symm.trans_le few

/-- **If its candidates are registered, a request is proper.** -/
theorem proper_of_registerCandidates {request : Request} {registered : List Registered}
    (given : Gives (registerCandidates bias request) engine registered after) :
    request.Proper := by
  obtain ⟨all, middle, registers, _⟩ := given.of_bind
  obtain ⟨_, distinct, single⟩ := fresh_of_registerPools registers
  refine ⟨?_, fun pool inside => ?_⟩
  · unfold Request.candidates
    rw [List.map_flatMap]
    have keys : request.pools.entries.flatMap (fun pool => (pool.2.map fun candidate =>
        (pool.1, candidate)).map fun entry => entry.2.key) =
        request.pools.entries.flatMap fun pool => pool.2.map Candidate.key :=
      List.flatMap_congr fun pool _ => by rw [List.map_map]; rfl
    exact keys ▸ distinct
  · obtain ⟨entry, among, rfl⟩ := List.mem_map.mp inside
    exact single entry among

/-- **A request that has an outcome is proper.** -/
theorem proper_of_resolution {config : Config} {request : Request} {outcome : Outcome}
    (given : Gives (resolution config request) engine outcome after) : request.Proper := by
  obtain ⟨registered, middle, added, _⟩ := given.of_bind
  obtain ⟨all, last, registers, _⟩ := added.of_bind
  exact proper_of_registerCandidates registers

end Resolver

end Loadout
