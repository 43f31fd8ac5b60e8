/-
**The order of pools only decides between equally cheap selections.**

A request may list its pools in another order. Its candidates, their places in their pools and what
selections cost are the same then:

* `Admissible.permuted`, `cost_permuted`: the same selections are admissible, at the same cost;
* `rejectsRest_of_solved`: a resolution rejects what the ranked pools hold and it does not select;
* **`resolve_permuted`**: both requests have a resolution or neither has, and both resolutions are
  of cheapest selections; they are alike where there is one such selection only;
* `not_alike_of_rivals`: of two cheapest selections the order of the pools may pick one.
-/

import Loadout.Proofs.Resolver.Outcomes
import Loadout.Proofs.Resolver.Refusals

namespace Loadout

/-! ### Requests with their pools in another order -/

namespace Request

variable {request request' : Request} {bias : Int} {loaded : List (String × Candidate)}

theorem candidates_permuted (order : request.pools.entries.Perm request'.pools.entries) :
    request.candidates.Perm request'.candidates :=
  order.flatMap_right _

theorem pool_permuted (order : request.pools.entries.Perm request'.pools.entries)
    (modId : String) : request.pool modId = request'.pool modId := by
  unfold pool
  rw [OrderedMap.get?_perm order]

theorem Proper.permuted (proper : request.Proper)
    (order : request.pools.entries.Perm request'.pools.entries) : request'.Proper where
  distinct := ((candidates_permuted order).map _).nodup_iff.mp proper.distinct
  single pool inside := proper.single pool ((order.map _).mem_iff.mpr inside)

/-- **The same selections are admissible.** -/
theorem Admissible.permuted (admissible : request.Admissible loaded)
    (order : request.pools.entries.Perm request'.pools.entries) : request'.Admissible loaded where
  known entry inside := (candidates_permuted order).mem_iff.mp (admissible.known entry inside)
  mandatory entry inside :=
    admissible.mandatory entry ((candidates_permuted order).mem_iff.mpr inside)
  unique := admissible.unique
  depends := admissible.depends
  breaks := admissible.breaks

/-- **They cost the same.** -/
theorem cost_permuted (bias : Int)
    (order : request.pools.entries.Perm request'.pools.entries)
    (loaded : List (String × Candidate)) :
    request.cost bias loaded = request'.cost bias loaded := by
  have weights : request.weightOf bias = request'.weightOf bias := by
    funext entry
    unfold weightOf placeOf
    rw [pool_permuted order]
  unfold cost
  rw [weights]

/-! ### Cheapest selections -/

/-- The selection is admissible, and none that is admissible costs less. -/
structure Cheapest (bias : Int) (request : Request) (loaded : List (String × Candidate)) :
    Prop where
  admissible : request.Admissible loaded
  least : ∀ other, request.Admissible other → request.cost bias loaded ≤ request.cost bias other

theorem Cheapest.permuted (cheapest : request.Cheapest bias loaded)
    (order : request.pools.entries.Perm request'.pools.entries) :
    request'.Cheapest bias loaded where
  admissible := cheapest.admissible.permuted order
  least other allowed := by
    rw [← cost_permuted bias order, ← cost_permuted bias order]
    exact cheapest.least other (allowed.permuted order.symm)

/-- There is one cheapest selection at most, up to the order of its candidates. -/
def Decided (bias : Int) (request : Request) : Prop :=
  ∀ loaded other, request.Cheapest bias loaded → request.Cheapest bias other → loaded.Perm other

/-- **A mandatory candidate in every pool decides what is loaded.** -/
theorem decided_of_mandatory (bias : Int)
    (every : ∀ pool ∈ request.pools.values, pool.any Candidate.mandatory = true) :
    request.Decided bias := by
  -- only mandatory candidates are loaded, since each pool has one and no other fits beside it
  have forced : ∀ loaded, request.Admissible loaded → ∀ entry,
      entry ∈ loaded ↔ entry ∈ request.candidates ∧ entry.2.mandatory = true := by
    intro loaded admissible entry
    refine ⟨fun inside => ?_, fun ⟨known, must⟩ => admissible.mandatory entry known must⟩
    have known := admissible.known entry inside
    refine ⟨known, ?_⟩
    obtain ⟨pool, listed, held⟩ := List.mem_flatMap.mp known
    obtain ⟨_, _, rfl⟩ := List.mem_map.mp held
    obtain ⟨winner, member, must⟩ :=
      List.any_eq_true.mp (every pool.2 (List.mem_map_of_mem listed))
    have winner' : (pool.1, winner) ∈ request.candidates :=
      List.mem_flatMap.mpr ⟨pool, listed, List.mem_map_of_mem member⟩
    have same := List.inj_on_of_nodup_map admissible.distinct inside
      (admissible.mandatory _ winner' must) rfl
    rw [same]
    exact must
  intro loaded other cheapest cheapest'
  refine (List.perm_ext_iff_of_nodup cheapest.admissible.nodup cheapest'.admissible.nodup).mpr
    fun entry => ?_
  rw [forced loaded cheapest.admissible, forced other cheapest'.admissible]

end Request

/-! ### Resolutions -/

/-- Resolutions are alike if they have the same entries, in whatever order of the mod ids. -/
structure Resolution.Alike (report report' : Resolution) : Prop where
  selected : report.selected.entries.Perm report'.selected.entries
  provided : report.provided.entries.Perm report'.provided.entries
  rejected : ∀ modId, report.rejected.get? modId = report'.rejected.get? modId

namespace Resolver

open Engine

variable {bias : Int} {request request' : Request} {value : ChoiceId → Bool}
  {report report' : Resolution}

/-- The seats of a mod id are those of its pool, the best first. -/
theorem seated_of_mod (request : Request) (modId : String) :
    ((seated 0 request.seats).filter fun registered => registered.modId == modId).map
      Registered.candidate = ranked (request.pool modId) := by
  have seats : ((seated 0 request.seats).filter fun registered => registered.modId == modId).map
      Registered.candidate =
      (request.seats.filter fun seat => seat.modId == modId).map Seat.candidate := by
    unfold seated
    rw [List.filter_map, List.map_map]
    show List.map (Seat.candidate ∘ Prod.fst)
      (List.filter ((fun seat : Seat => seat.modId == modId) ∘ Prod.fst) _) = _
    rw [← List.map_map, ← List.filter_map, List.zipIdx_map_fst]
  have pools : (request.seats.filter fun seat => seat.modId == modId).map Seat.candidate =
      request.pools.entries.flatMap fun pool =>
        if pool.1 = modId then ranked pool.2 else [] := by
    unfold Request.seats poolSeats
    rw [List.filter_flatMap, List.map_flatMap]
    refine List.flatMap_congr fun pool _ => ?_
    unfold seatsFrom
    rw [List.filter_map, List.map_map]
    show List.map _ (List.filter (fun _ => pool.1 == modId) _) = _
    by_cases own : pool.1 = modId
    · rw [if_pos own, beq_iff_eq.mpr own, List.filter_true]
      exact List.zipIdx_map_fst 0 _
    · rw [if_neg own, beq_false_of_ne own, List.filter_false]
      rfl
  rw [seats, pools, OrderedMap.flatMap_of_key]
  unfold Request.pool
  cases request.pools.get? modId with
  | none => exact List.mergeSort_nil.symm
  | some pool => rfl

/-- The keys of the candidates of a mod id that a resolution does not select, the best first. -/
def passedOver (request : Request) (report : Resolution) (modId : String) : List String :=
  ((ranked (request.pool modId)).map Candidate.key).filter fun key =>
    !report.selected.entries.contains (modId, key)

/-- A resolution rejects what it passes over, and names no mod id where that is nothing. -/
def RejectsRest (request : Request) (report : Resolution) : Prop :=
  ∀ modId, report.rejected.get? modId =
    if passedOver request report modId = [] then none
    else some (passedOver request report modId)

/-- In a proper request a key is selected just when its seat is loaded. -/
theorem contains_selected (proper : request.Proper)
    (listed : report.selected.entries =
      (selected request.seats value).map fun entry => (entry.1, entry.2.key))
    {registered : Registered} (inside : registered ∈ seated 0 request.seats) :
    report.selected.entries.contains (registered.modId, registered.candidate.key) =
      value registered.choice := by
  rw [listed, Bool.eq_iff_iff, List.contains_iff_mem, List.mem_map]
  constructor
  · rintro ⟨entry, member, same⟩
    obtain ⟨other, inside', holds, rfl⟩ := mem_selected.mp member
    have equal : other.entry = registered.entry :=
      List.inj_on_of_nodup_map proper.distinct (mem_candidates_iff.mpr ⟨other, inside', rfl⟩)
        (mem_candidates_iff.mpr ⟨registered, inside, rfl⟩) (Prod.mk.inj same).2
    rwa [← eq_of_entry_eq proper inside' inside equal]
  · exact fun holds => ⟨registered.entry, mem_selected.mpr ⟨registered, inside, holds, rfl⟩, rfl⟩

/-- The seats of a mod id that are not loaded have the keys that are passed over. -/
theorem keysOf_unloaded (proper : request.Proper)
    (listed : report.selected.entries =
      (selected request.seats value).map fun entry => (entry.1, entry.2.key)) (modId : String) :
    keysOf modId ((seated 0 request.seats).filter fun registered => !value registered.choice) =
      passedOver request report modId := by
  unfold passedOver keysOf
  rw [← seated_of_mod, List.map_map, List.filter_map, List.filter_filter, List.filter_filter]
  congr 1
  refine List.filter_congr fun registered inside => ?_
  show (registered.modId == modId && !value registered.choice) =
    (!report.selected.entries.contains (modId, registered.candidate.key) &&
      registered.modId == modId)
  by_cases own : registered.modId = modId
  · rw [← own, contains_selected proper listed inside, Bool.and_comm]
  · rw [beq_false_of_ne own, Bool.false_and, Bool.and_false]

/-- Where the seats that are not loaded are rejected, so is what is passed over. -/
theorem rejectsRest_of_sorted (proper : request.Proper)
    (listed : report.selected.entries =
      (selected request.seats value).map fun entry => (entry.1, entry.2.key))
    (rejected : report.rejected = ((seated 0 request.seats).filter fun registered =>
      !value registered.choice).foldl
        (fun rejected entry => rejected.append entry.modId entry.candidate.key) .empty) :
    RejectsRest request report := by
  intro modId
  rw [rejected, get?_foldl_append, keysOf_unloaded proper listed]
  rfl

/-- **A resolution rejects what it passes over.** -/
theorem rejectsRest_of_solved {config : Config} (patient : config.timeoutMs = none)
    (proper : request.Proper)
    (solved : (resolution config request (create config .clear)).1 = .ok (.solved report)) :
    RejectsRest request report := by
  obtain ⟨later, forest, outcome, after, given, _, builds, settles⟩ :=
    resolution_settled patient proper
  rw [congrArg Prod.fst given] at solved
  cases solved
  obtain ⟨model, chosen, sorted⟩ := settles
  obtain ⟨report', sorted', listed, _, rejected⟩ := sortOut_spec builds.extends'
    (admissible_of_satisfied proper builds chosen.satisfied)
  cases sorted.symm.trans sorted'
  rw [ownClaims_claimsOf] at listed
  exact rejectsRest_of_sorted proper listed rejected

/-- Resolutions of one selection are alike, whatever the order of the pools. -/
theorem alike_of_perm (order : request.pools.entries.Perm request'.pools.entries)
    {loaded loaded' : List (String × Candidate)} (same : loaded.Perm loaded')
    (reports : report.Reports request loaded) (reports' : report'.Reports request' loaded')
    (rejects : RejectsRest request report) (rejects' : RejectsRest request' report') :
    report.Alike report' := by
  have selected : report.selected.entries.Perm report'.selected.entries := by
    rw [reports.selected, reports'.selected]
    exact same.map _
  refine ⟨selected, ?_, fun modId => ?_⟩
  · rw [reports.provided, reports'.provided]
    exact same.flatMap_right _
  · have rest : passedOver request report modId = passedOver request' report' modId := by
      unfold passedOver
      rw [Request.pool_permuted order]
      refine List.filter_congr fun key _ => congrArg (!·) ?_
      rw [Bool.eq_iff_iff, List.contains_iff_mem, List.contains_iff_mem, selected.mem_iff]
    rw [rejects, rejects', rest]

/-- **The order of pools only decides between equally cheap selections.** If a request has a
resolution, then it has one with its pools in any other order. Both are of cheapest selections of
the request, and if these do not differ, then the resolutions are alike. -/
theorem resolve_permuted {resolver : Resolver}
    (order : request.pools.entries.Perm request'.pools.entries)
    (patient : resolver.config.timeoutMs = none) (uncancelled : resolver.signal = .clear)
    (solved : (resolve request resolver).1 = .ok (.solved report)) :
    ∃ report', resolve request' resolver = (.ok (.solved report'), resolver) ∧
      (∃ loaded loaded', request.Cheapest resolver.config.inclusionBias loaded ∧
        request.Cheapest resolver.config.inclusionBias loaded' ∧
        report.Reports request loaded ∧ report'.Reports request' loaded') ∧
      (request.Decided resolver.config.inclusionBias → report.Alike report') := by
  obtain ⟨config, signal⟩ := resolver
  cases uncancelled
  have proper : request.Proper := proper_of_resolution (Prod.ext solved rfl)
  have proper' := proper.permuted order
  obtain ⟨outcome, after, given, idle, right⟩ := resolution_gives patient proper
  obtain ⟨outcome', after', given', idle', right'⟩ := resolution_gives patient proper'
  have answered := solved
  rw [resolve_of_gives given idle] at answered
  cases answered
  obtain ⟨loaded, admissible, reports, least⟩ := right
  cases outcome' with
  | infeasible problems => exact absurd ⟨loaded, admissible.permuted order⟩ right'
  | solved report' =>
    obtain ⟨loaded', admissible', reports', least'⟩ := right'
    have cheapest : request.Cheapest config.inclusionBias loaded := ⟨admissible, least⟩
    have cheapest' : request.Cheapest config.inclusionBias loaded' :=
      (Request.Cheapest.mk admissible' least').permuted order.symm
    have resolved' := resolve_of_gives given' idle'
    refine ⟨report', resolved', ⟨loaded, loaded', cheapest, cheapest', reports, reports'⟩,
      fun decided => ?_⟩
    exact alike_of_perm order (decided loaded loaded' cheapest cheapest') reports reports'
      (rejectsRest_of_solved patient proper (congrArg Prod.fst given))
      (rejectsRest_of_solved patient proper' (congrArg Prod.fst given'))

/-- The request of two pools. -/
def ofTwo (first second : String × List Candidate) (differ : first.1 ≠ second.1) : Request :=
  ⟨⟨[first, second], by simpa using differ⟩⟩

/-- The resolution of an answer, if there is one. -/
def solved? : Except SolverError Outcome → Option Resolution
  | .ok (.solved report) => some report
  | _ => none

theorem solved?_eq_some_iff {answer : Except SolverError Outcome} :
    solved? answer = some report ↔ answer = .ok (.solved report) := by
  obtain error | problems | other := answer <;> simp [solved?]

/-- A mandatory candidate that provides a further mod id and depends on the other pool. -/
def appPool : String × List Candidate :=
  ("app", [(Candidate.plain "app" (.ofNumbers [1])).asMandatory.providing ⟨"extra", none⟩
    |>.dependingOn (.only "lib" .any false none)])

/-- The candidate it depends on, which is mandatory too. -/
def libPool : String × List Candidate :=
  ("lib", [(Candidate.plain "lib" (.ofNumbers [2])).asMandatory])

/-- Where each pool has a mandatory candidate, both orders have one resolution. -/
theorem resolve_permuted_of_mandatory :
    ∃ report report',
      (resolve (ofTwo appPool libPool (by decide)) (ofConfig .standard)).1 =
        .ok (.solved report) ∧
      (resolve (ofTwo libPool appPool (by decide)) (ofConfig .standard)).1 =
        .ok (.solved report') ∧
      report.Alike report' ∧ report.provided.entries = [("extra", "app")] := by
  have computed : (solved? (resolve (ofTwo appPool libPool (by decide))
      (ofConfig .standard)).1).map (fun report => report.provided.entries) =
      some [("extra", "app")] := by decide +kernel
  obtain ⟨report, found, provided⟩ := Option.map_eq_some_iff.mp computed
  have solved := solved?_eq_some_iff.mp found
  have order : (ofTwo appPool libPool (by decide)).pools.entries.Perm
      (ofTwo libPool appPool (by decide)).pools.entries := .swap _ _ _
  obtain ⟨report', resolved', _, alike⟩ := resolve_permuted order rfl rfl solved
  exact ⟨report, report', solved, congrArg Prod.fst resolved',
    alike (Request.decided_of_mandatory _ (by decide)), provided⟩

/-- A candidate that breaks the mod of the other pool, which weighs the same. -/
def breakerPool : String × List Candidate :=
  ("a", [(Candidate.plain "a" (.ofNumbers [1])).breaking (.only "b" .any false none)])

/-- The candidate that is broken. -/
def brokenPool : String × List Candidate :=
  ("b", [Candidate.plain "b" (.ofNumbers [1])])

/-- **Of two cheapest selections the order of the pools picks one.** -/
theorem not_alike_of_rivals :
    (ofTwo breakerPool brokenPool (by decide)).Proper ∧
    (ofTwo breakerPool brokenPool (by decide)).pools.entries.Perm
      (ofTwo brokenPool breakerPool (by decide)).pools.entries ∧
    (ofConfig .standard).config.timeoutMs = none ∧ (ofConfig .standard).signal = .clear ∧
    ∃ report report',
      (resolve (ofTwo breakerPool brokenPool (by decide)) (ofConfig .standard)).1 =
        .ok (.solved report) ∧
      (resolve (ofTwo brokenPool breakerPool (by decide)) (ofConfig .standard)).1 =
        .ok (.solved report') ∧
      report.selected.entries = [("a", "a")] ∧ report'.selected.entries = [("b", "b")] ∧
      ¬report.Alike report' := by
  have first : (solved? (resolve (ofTwo breakerPool brokenPool (by decide))
      (ofConfig .standard)).1).map (fun report => report.selected.entries) =
      some [("a", "a")] := by decide +kernel
  have second : (solved? (resolve (ofTwo brokenPool breakerPool (by decide))
      (ofConfig .standard)).1).map (fun report => report.selected.entries) =
      some [("b", "b")] := by decide +kernel
  obtain ⟨report, found, selected⟩ := Option.map_eq_some_iff.mp first
  obtain ⟨report', found', selected'⟩ := Option.map_eq_some_iff.mp second
  refine ⟨⟨by decide, by decide⟩, .swap _ _ _, rfl, rfl, report, report',
    solved?_eq_some_iff.mp found, solved?_eq_some_iff.mp found', selected, selected',
    fun alike => ?_⟩
  have same := alike.selected
  rw [selected, selected'] at same
  exact absurd (List.perm_singleton.mp same) (by decide)

end Resolver

end Loadout
