/-
**Pools that do not depend on each other.**

Where no candidate depends on another mod, breaks one or provides one, each pool elects for itself
(`Resolver.Elects`): its mandatory candidate, or else the first of those that weigh least if that
lowers the cost, or else nothing.

* `Elects.unique`: no two candidates are elected;
* `consistent_of_independent`: candidates of different mod ids break no rule;
* `admissible_without`, `admissible_exchange`: so a pool may be left out, or have any candidate
  loaded, whatever the others do;
* `Favourite.elects`: the favourite has of each mod id what its pool elects;
* **`resolve_independent`**: so has the resolution, and there is one.
-/

import Loadout.Proofs.Resolver.Exchanges

namespace Loadout

namespace Resolver

variable {bias : Int} {request : Request} {modId : String}

/-! ### What a pool elects -/

/-- **What the candidates of a pool elect among themselves**, in their order from the best down. -/
inductive Elects (bias : Int) (order : List Candidate) : Option Candidate → Prop
  /-- A mandatory candidate is elected. -/
  | mandatory {candidate : Candidate} : candidate ∈ order → candidate.mandatory = true →
    Elects bias order (some candidate)
  /-- Where there is none, the first of those that weigh least is, if its weight is negative. -/
  | least {candidate : Candidate} {place : Nat} : (∀ other ∈ order, other.mandatory = false) →
    order[place]? = some candidate → derivedWeight bias place candidate < 0 →
    (∀ other place', order[place']? = some other →
      derivedWeight bias place candidate ≤ derivedWeight bias place' other) →
    (∀ other place', order[place']? = some other → place' < place →
      derivedWeight bias place candidate < derivedWeight bias place' other) →
    Elects bias order (some candidate)
  /-- Where no weight is, nobody is. -/
  | none : (∀ other ∈ order, other.mandatory = false) →
    (∀ other place, order[place]? = some other → 0 ≤ derivedWeight bias place other) →
    Elects bias order none

/-- **No two candidates are elected**, where no two are mandatory. -/
theorem Elects.unique {order : List Candidate} {elected elected' : Option Candidate}
    (single : order.countP Candidate.mandatory ≤ 1) (one : Elects bias order elected)
    (two : Elects bias order elected') : elected = elected' := by
  have forced : ∀ {candidate : Candidate}, candidate ∈ order → candidate.mandatory = true →
      ¬∀ other ∈ order, other.mandatory = false := fun inside must free =>
    Bool.false_ne_true ((free _ inside).symm.trans must)
  cases one with
  | mandatory inside must =>
    cases two with
    | mandatory inside' must' =>
      rw [List.countP_eq_length_filter] at single
      have here := List.mem_filter.mpr ⟨inside, must⟩
      have there := List.mem_filter.mpr ⟨inside', must'⟩
      generalize order.filter Candidate.mandatory = winners at single here there
      match winners, single with
      | [winner], _ => rw [List.mem_singleton.mp here, List.mem_singleton.mp there]
    | least free _ _ _ _ => exact absurd free (forced inside must)
    | none free _ => exact absurd free (forced inside must)
  | @least candidate place free found lowers least first =>
    cases two with
    | mandatory inside must => exact absurd free (forced inside must)
    | @least candidate' place' _ found' _ least' first' =>
      rcases Nat.lt_trichotomy place place' with before | rfl | after
      · exact absurd (least candidate' place' found') (Int.not_le.mpr (first' _ _ found before))
      · exact found.symm.trans found'
      · exact absurd (least' candidate place found) (Int.not_le.mpr (first _ _ found' after))
    | none _ heavy => exact absurd (heavy _ _ found) (Int.not_le.mpr lowers)
  | none free heavy =>
    cases two with
    | mandatory inside must => exact absurd free (forced inside must)
    | least _ found lowers _ _ => exact absurd (heavy _ _ found) (Int.not_le.mpr lowers)
    | none _ _ => rfl

/-- A list is what stands before a place, what stands there and what stands behind it. -/
theorem split_at {α : Type} {list : List α} {place : Nat} {item : α}
    (found : list[place]? = some item) :
    list = list.take place ++ item :: list.drop (place + 1) := by
  obtain ⟨within, rfl⟩ := List.getElem?_eq_some_iff.mp found
  rw [List.getElem_cons_drop, List.take_append_drop]

/-- The candidate at a place of a ranked pool weighs what it does there. -/
theorem weightOf_ranked (proper : request.Proper) {candidate : Candidate} {place : Nat}
    (found : (ranked (request.pool modId))[place]? = some candidate) :
    request.weightOf bias (modId, candidate) = derivedWeight bias place candidate := by
  unfold Request.weightOf
  rw [placeOf_ranked proper found]

end Resolver

namespace Request

open Resolver

variable {bias : Int} {request : Request} {loaded : List (String × Candidate)} {modId : String}
  {candidate : Candidate}

/-- **No candidate has to do with another mod.** -/
def Independent (request : Request) : Prop :=
  ∀ entry ∈ request.candidates,
    entry.2.depends = [] ∧ entry.2.breaks = [] ∧ entry.2.provides = []

instance (request : Request) : Decidable request.Independent :=
  inferInstanceAs (Decidable (∀ entry ∈ request.candidates,
    entry.2.depends = [] ∧ entry.2.breaks = [] ∧ entry.2.provides = []))

/-- **Candidates of different mod ids break no rule.** -/
theorem consistent_of_independent (independent : request.Independent)
    (known : ∀ entry ∈ loaded, entry ∈ request.candidates)
    (distinct : (loaded.map Prod.fst).Nodup) : Consistent loaded where
  unique := by
    have own : (offers loaded).map Offer.modId = loaded.map Prod.fst := by
      unfold offers
      rw [List.map_flatMap, ← List.flatMap_pure_eq_map]
      refine List.flatMap_congr fun ⟨modId, candidate⟩ inside => ?_
      have bare : candidate.provides = [] := (independent _ (known _ inside)).2.2
      unfold Candidate.offers Candidate.extras
      dsimp only
      rw [bare]
      rfl
    rw [own]
    exact distinct
  depends entry inside dependency declared := by
    rw [(independent entry (known entry inside)).1] at declared
    cases declared
  breaks entry inside breakage declared := by
    rw [(independent entry (known entry inside)).2.1] at declared
    cases declared

/-! ### Selections that are admissible -/

/-- The mandatory candidates of a proper request have different mod ids. -/
theorem distinct_mandatory (proper : request.Proper) :
    ((request.candidates.filter fun entry => entry.2.mandatory).map Prod.fst).Nodup := by
  unfold candidates
  rw [List.filter_flatMap, List.map_flatMap, List.nodup_flatMap]
  constructor
  · intro pool entered
    have single := proper.single pool.2 (List.mem_map_of_mem entered)
    have same : ((pool.2.map fun candidate => (pool.1, candidate)).filter
        fun entry => entry.2.mandatory).map Prod.fst =
        List.replicate (pool.2.countP Candidate.mandatory) pool.1 := by
      rw [List.filter_map, List.map_map, List.countP_eq_length_filter]
      exact List.map_const'
    rw [same]
    exact List.nodup_replicate.mpr single
  · refine (List.pairwise_map.mp request.pools.distinct).imp
      fun {pool pool'} differ modId inside inside' => differ ?_
    obtain ⟨entry, held, rfl⟩ := List.mem_map.mp inside
    obtain ⟨entry', held', same⟩ := List.mem_map.mp inside'
    obtain ⟨_, _, rfl⟩ := List.mem_map.mp (List.mem_of_mem_filter held)
    obtain ⟨_, _, rfl⟩ := List.mem_map.mp (List.mem_of_mem_filter held')
    exact same.symm

/-- **Some selection is admissible**: that of the mandatory candidates. -/
theorem exists_admissible (proper : request.Proper) (independent : request.Independent) :
    ∃ loaded, request.Admissible loaded := by
  have known : ∀ entry ∈ request.candidates.filter fun entry => entry.2.mandatory,
      entry ∈ request.candidates := fun _ => List.mem_of_mem_filter
  exact ⟨_, (consistent_of_independent independent known (distinct_mandatory proper)).admissible
    known fun _ inside must => List.mem_filter.mpr ⟨inside, must⟩⟩

/-! ### Pools without a mandatory candidate -/

section Free

/-- A pool without a mandatory candidate may be left out. -/
theorem admissible_without (independent : request.Independent)
    (admissible : request.Admissible loaded)
    (free : ∀ other ∈ request.pool modId, other.mandatory = false) :
    request.Admissible (without modId loaded) := by
  have known : ∀ entry ∈ without modId loaded, entry ∈ request.candidates :=
    fun entry inside => admissible.known entry (mem_without.mp inside).1
  refine (consistent_of_independent independent known
    (admissible.distinct.sublist (List.filter_sublist.map _))).admissible known ?_
  rintro ⟨other, candidate⟩ inside must
  refine mem_without.mpr ⟨admissible.mandatory _ inside must, ?_⟩
  rintro rfl
  exact Bool.false_ne_true ((free candidate (mem_pool.mpr inside)).symm.trans must)

/-- Any of its candidates may be loaded. -/
theorem admissible_exchange (independent : request.Independent)
    (admissible : request.Admissible loaded)
    (free : ∀ other ∈ request.pool modId, other.mandatory = false)
    (inside : candidate ∈ request.pool modId) :
    request.Admissible (exchange modId candidate loaded) := by
  have left := admissible_without independent admissible free
  have known : ∀ entry ∈ exchange modId candidate loaded, entry ∈ request.candidates :=
    List.forall_mem_cons.mpr ⟨mem_pool.mp inside, left.known⟩
  exact (consistent_of_independent independent known
    (distinct_exchange admissible.distinct)).admissible known
      fun entry inside must => List.mem_cons_of_mem _ (left.mandatory entry inside must)

/-- What is loaded of a pool without a mandatory candidate lowers the cost: it could be left out. -/
theorem Favourite.lowers (proper : request.Proper) (independent : request.Independent)
    (favourite : request.Favourite bias loaded)
    (free : ∀ other ∈ request.pool modId, other.mandatory = false)
    (inside : (modId, candidate) ∈ loaded) :
    request.weightOf bias (modId, candidate) < 0 := by
  have admissible := admissible_without independent favourite.admissible free
  by_contra heavy
  have cheapest : request.Cheapest bias (without modId loaded) := by
    refine favourite.of_cost_le admissible ?_
    rw [favourite.admissible.cost_eq bias inside]
    omega
  have known := mem_pool.mpr (favourite.admissible.known _ inside)
  obtain ⟨front, back, split⟩ := List.append_of_mem ((ranked_perm _).mem_iff.mpr known)
  have nodup := nodup_ranked proper modId
  rw [split, List.nodup_append] at nodup
  have gone : ∀ other, (modId, other) ∉ without modId loaded := fun _ inside' =>
    (mem_without.mp inside').2 rfl
  refine heavy ((favourite.first_of_pool cheapest (fun entry other => ?_) split
    (fun earlier among => iff_of_false (fun inside' => ?_) (gone earlier))
    fun same => ?_).mp inside)
  · rw [mem_without, and_iff_left other]
  · exact nodup.2.2 earlier among candidate List.mem_cons_self
      (favourite.admissible.only inside inside')
  · exact gone candidate (same.mp inside)

/-- Where nothing of the pool is loaded, nothing lowers the cost: it could be loaded besides. -/
theorem Favourite.weightOf_nonneg (independent : request.Independent)
    (favourite : request.Favourite bias loaded)
    (free : ∀ other ∈ request.pool modId, other.mandatory = false)
    (absent : ∀ other, (modId, other) ∉ loaded) (inside : candidate ∈ request.pool modId) :
    0 ≤ request.weightOf bias (modId, candidate) := by
  have same : without modId loaded = loaded := by
    refine List.filter_eq_self.mpr fun ⟨other, held⟩ inside' => bne_iff_ne.mpr ?_
    rintro rfl
    exact absent held inside'
  have least := favourite.least _
    (admissible_exchange independent favourite.admissible free inside)
  rw [cost_exchange, same] at least
  omega

/-- What is loaded of the pool is elected by it. -/
theorem Favourite.elects_least (proper : request.Proper) (independent : request.Independent)
    (favourite : request.Favourite bias loaded)
    (free : ∀ other ∈ request.pool modId, other.mandatory = false)
    (inside : (modId, candidate) ∈ loaded) :
    Elects bias (ranked (request.pool modId)) (some candidate) := by
  have order := ranked_perm (request.pool modId)
  have known := mem_pool.mpr (favourite.admissible.known _ inside)
  obtain ⟨place, found⟩ := List.mem_iff_getElem?.mp (order.mem_iff.mpr known)
  have others : ∀ {other : Candidate} {place' : Nat},
      (ranked (request.pool modId))[place']? = some other →
        request.Admissible (exchange modId other loaded) := fun found =>
    admissible_exchange independent favourite.admissible free
      (order.mem_iff.mp (List.mem_of_getElem? found))
  have lowers := favourite.lowers proper independent free inside
  have least : ∀ other place', (ranked (request.pool modId))[place']? = some other →
      derivedWeight bias place candidate ≤ derivedWeight bias place' other := by
    intro other place' found'
    rw [← weightOf_ranked proper found, ← weightOf_ranked proper found']
    exact favourite.weightOf_le inside (others found')
  refine .least (fun other among => free other (order.mem_iff.mp among)) found
    (weightOf_ranked proper found ▸ lowers) least fun other place' found' before => ?_
  -- an earlier one of the same weight would have been preferred
  refine Int.lt_iff_le_and_ne.mpr ⟨least other place' found', fun tied => ?_⟩
  have behind : ((ranked (request.pool modId)).drop (place' + 1))[place - (place' + 1)]? =
      some candidate := by
    rw [List.getElem?_drop, Nat.add_sub_cancel' before]
    exact found
  rw [← weightOf_ranked proper found, ← weightOf_ranked proper found'] at tied
  have preferred := (favourite.exchange_tied proper inside (split_at found')
    (List.mem_of_getElem? behind) (others found') (Int.le_of_eq tied.symm)).2
  exact Int.not_lt.mpr preferred (tied ▸ lowers)

end Free

/-- **The favourite has of each mod id what its pool elects.** -/
theorem Favourite.elects (proper : request.Proper) (independent : request.Independent)
    (favourite : request.Favourite bias loaded) (modId : String) :
    ∃ elected, Elects bias (ranked (request.pool modId)) elected ∧
      ∀ candidate, (modId, candidate) ∈ loaded ↔ elected = some candidate := by
  have order := ranked_perm (request.pool modId)
  have only : ∀ candidate, (modId, candidate) ∈ loaded →
      ∀ other, (modId, other) ∈ loaded ↔ some candidate = some other := by
    intro candidate inside other
    rw [Option.some.injEq]
    exact ⟨fun inside' => (favourite.admissible.only inside inside').symm,
      fun same => same ▸ inside⟩
  by_cases must : ∃ winner ∈ request.pool modId, winner.mandatory = true
  · obtain ⟨winner, inside, must⟩ := must
    exact ⟨some winner, .mandatory (order.mem_iff.mpr inside) must,
      only winner (favourite.admissible.mandatory _ (mem_pool.mp inside) must)⟩
  · have free : ∀ other ∈ request.pool modId, other.mandatory = false := by simpa using must
    by_cases any : ∃ candidate, (modId, candidate) ∈ loaded
    · obtain ⟨candidate, inside⟩ := any
      exact ⟨some candidate, favourite.elects_least proper independent free inside,
        only candidate inside⟩
    · have absent : ∀ other, (modId, other) ∉ loaded := not_exists.mp any
      refine ⟨none, .none (fun other inside => free other (order.mem_iff.mp inside))
        fun other place found => ?_, fun candidate => iff_of_false (absent candidate) nofun⟩
      rw [← weightOf_ranked proper found]
      exact favourite.weightOf_nonneg independent free absent
        (order.mem_iff.mp (List.mem_of_getElem? found))

end Request

namespace Resolver

variable {request : Request}

/-- **Independent pools elect for themselves.** Where no key occurs twice, no pool has two mandatory
candidates and no candidate depends on another mod, breaks or provides one, a resolver without a
time limit that is not cancelled finds a resolution. For every mod id it selects what the candidates
of the pool, from the best down, elect among themselves, and nothing where they elect nobody. -/
theorem resolve_independent {resolver : Resolver} (proper : request.Proper)
    (independent : request.Independent) (patient : resolver.config.timeoutMs = none)
    (uncancelled : resolver.signal = .clear) :
    ∃ report, resolve request resolver = (.ok (.solved report), resolver) ∧
      ∀ modId, ∃ order elected, order.Perm (request.pool modId) ∧
        order.Pairwise Candidate.Outranks ∧
        Elects resolver.config.inclusionBias order elected ∧
        report.selected.get? modId = elected.map Candidate.key := by
  obtain ⟨outcome, resolved, right⟩ := resolve_correct proper patient uncancelled
  cases outcome with
  | infeasible problems => exact absurd (Request.exists_admissible proper independent) right
  | solved report =>
    have solved : (resolveAmid [] request resolver).1 = .ok (.solved report) :=
      congrArg Prod.fst resolved
    obtain ⟨loaded, favourite, reports⟩ := favourite_of_solved solved
    refine ⟨report, resolved, fun modId => ?_⟩
    obtain ⟨elected, elects, has⟩ := favourite.elects proper independent modId
    refine ⟨ranked (request.pool modId), elected, ranked_perm _,
      ranked_outranks (nodup_keys_ranked proper modId), elects, Option.ext fun key => ?_⟩
    rw [OrderedMap.get?_eq_some_iff, reports.selected, List.mem_map, Option.map_eq_some_iff]
    constructor
    · rintro ⟨⟨_, candidate⟩, inside, equal⟩
      cases equal
      exact ⟨candidate, (has candidate).mp inside, rfl⟩
    · rintro ⟨candidate, rfl, rfl⟩
      exact ⟨(modId, candidate), (has candidate).mpr rfl, rfl⟩

/-- Three pools: one with a mandatory candidate, one with two candidates that weigh the same, and
one whose candidate is too heavy. -/
def medley : Request :=
  ⟨⟨[("app", [Candidate.plain "app 2" (.ofNumbers [2]),
      (Candidate.plain "app 1" (.ofNumbers [1])).asMandatory]),
    ("lib", [Candidate.plain "lib 1" (.ofNumbers [1]),
      (Candidate.plain "lib 2" (.ofNumbers [2])).withWeight 1]),
    ("tool", [(Candidate.plain "tool" (.ofNumbers [1])).withWeight weightMax])],
    (by decide : ["app", "lib", "tool"].Nodup)⟩⟩

theorem resolve_independent_of_medley :
    medley.Proper ∧ medley.Independent ∧
    ∃ report, resolve medley (ofConfig .standard) = (.ok (.solved report), ofConfig .standard) ∧
      ∀ modId, ∃ order elected, order.Perm (medley.pool modId) ∧
        order.Pairwise Candidate.Outranks ∧ Elects Config.standard.inclusionBias order elected ∧
        report.selected.get? modId = elected.map Candidate.key :=
  have proper : medley.Proper := ⟨by decide, by decide⟩
  have independent : medley.Independent := by decide
  ⟨proper, independent, resolve_independent proper independent rfl rfl⟩

end Resolver

end Loadout
