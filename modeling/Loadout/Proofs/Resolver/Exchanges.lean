/-
**Candidates that are exchanged for better ones.**

To exchange the candidate of a mod id for another one (`Request.exchange`) changes what a selection
costs by what the two weigh. A candidate that outranks another of its pool, at no greater declared
weight, weighs no more. So a resolution that passes it over has a reason:

* `Cheapest.weightOf_le`: no exchange in a cheapest selection saves anything;
* `Favourite.first_of_pool`: the tie-break of the favourite within one pool;
* `Favourite.exchange_tied`: an exchange for an earlier candidate that costs nothing was passed over
  because the candidate does not lower the cost;
* `derivedWeight_lt`: an earlier candidate weighs less, unless what the later one weighs is cut off;
* **`resolve_keeps_better`**: so the exchange breaks a rule, unless the weight is cut off; where it
  breaks none, the two weigh the same and neither lowers the cost;
* `passed_over_of_brimful`: at the upper end of the weights a better candidate is passed over.
-/

import Loadout.Proofs.Resolver.Favourites
import Loadout.Proofs.Resolver.Ledger

namespace Loadout

/-- Nothing outranks what outranks it. -/
theorem Candidate.Outranks.asymm {candidate other : Candidate}
    (outranks : candidate.Outranks other) : ¬other.Outranks candidate := by
  rw [Resolver.outranks_iff] at outranks ⊢
  have turned : Resolver.rankOrder other candidate = (Resolver.rankOrder candidate other).swap :=
    Std.OrientedCmp.eq_swap
  rw [turned, outranks]
  nofun

namespace Request

variable {bias : Int} {request : Request} {loaded other : List (String × Candidate)}
  {modId : String} {candidate better : Candidate} {entry : String × Candidate}

/-! ### Selections that break no rule -/

/-- **No rule between loaded candidates is broken**: no mod id is offered twice, every dependency
holds and no breakage is active. -/
structure Consistent (loaded : List (String × Candidate)) : Prop where
  unique : ((offers loaded).map Offer.modId).Nodup
  depends : ∀ entry ∈ loaded, ∀ dependency ∈ entry.2.depends,
    dependency.holds (offers loaded) = true
  breaks : ∀ entry ∈ loaded, ∀ breakage ∈ entry.2.breaks,
    breakage.isActive (offers loaded) = false

instance (loaded : List (String × Candidate)) : Decidable (Consistent loaded) :=
  decidable_of_iff (((offers loaded).map Offer.modId).Nodup ∧
      (∀ entry ∈ loaded, ∀ dependency ∈ entry.2.depends,
        dependency.holds (offers loaded) = true) ∧
      ∀ entry ∈ loaded, ∀ breakage ∈ entry.2.breaks, breakage.isActive (offers loaded) = false)
    ⟨fun ⟨unique, depends, breaks⟩ => ⟨unique, depends, breaks⟩,
      fun ⟨unique, depends, breaks⟩ => ⟨unique, depends, breaks⟩⟩

/-- Candidates of a request that break no rule are admissible if all mandatory ones are there. -/
theorem Consistent.admissible (consistent : Consistent loaded)
    (known : ∀ entry ∈ loaded, entry ∈ request.candidates)
    (mandatory : ∀ entry ∈ request.candidates, entry.2.mandatory = true → entry ∈ loaded) :
    request.Admissible loaded :=
  ⟨known, mandatory, consistent.unique, consistent.depends, consistent.breaks⟩

/-! ### Exchanges -/

/-- What is loaded of the other mod ids. -/
def without (modId : String) (loaded : List (String × Candidate)) : List (String × Candidate) :=
  loaded.filter fun entry => entry.1 != modId

/-- A selection with a candidate in the place of what it has loaded of a mod id. -/
def exchange (modId : String) (candidate : Candidate) (loaded : List (String × Candidate)) :
    List (String × Candidate) :=
  (modId, candidate) :: without modId loaded

theorem mem_without : entry ∈ without modId loaded ↔ entry ∈ loaded ∧ entry.1 ≠ modId := by
  unfold without
  rw [List.mem_filter, bne_iff_ne]

theorem mem_exchange : entry ∈ exchange modId candidate loaded ↔
    entry = (modId, candidate) ∨ entry ∈ loaded ∧ entry.1 ≠ modId := by
  unfold exchange
  rw [List.mem_cons, mem_without]

/-- Of its mod id an exchange leaves just the new candidate. -/
theorem mem_exchange_own :
    (modId, candidate) ∈ exchange modId better loaded ↔ candidate = better := by
  rw [mem_exchange]
  simp

/-- The mod ids of a selection that are kept apart still are after an exchange. -/
theorem distinct_exchange (distinct : (loaded.map Prod.fst).Nodup) :
    ((exchange modId candidate loaded).map Prod.fst).Nodup := by
  unfold exchange
  rw [List.map_cons, List.nodup_cons]
  refine ⟨fun inside => ?_, distinct.sublist (List.filter_sublist.map _)⟩
  obtain ⟨entry, inside, same⟩ := List.mem_map.mp inside
  exact (mem_without.mp inside).2 same

/-- **To exchange a candidate for itself changes nothing.** -/
theorem exchange_perm (distinct : (loaded.map Prod.fst).Nodup)
    (inside : (modId, candidate) ∈ loaded) : (exchange modId candidate loaded).Perm loaded := by
  refine (List.perm_ext_iff_of_nodup (.of_map _ (distinct_exchange distinct))
    (.of_map _ distinct)).mpr fun entry => ?_
  rw [mem_exchange]
  constructor
  · rintro (rfl | ⟨inside', _⟩)
    · exact inside
    · exact inside'
  · intro inside'
    by_cases own : entry.1 = modId
    · exact .inl (List.inj_on_of_nodup_map distinct inside' inside own)
    · exact .inr ⟨inside', own⟩

/-- Two candidates of one mod id are not loaded together. -/
theorem Admissible.only (admissible : request.Admissible loaded)
    (inside : (modId, candidate) ∈ loaded) (inside' : (modId, better) ∈ loaded) :
    better = candidate :=
  (Prod.mk.inj (List.inj_on_of_nodup_map admissible.distinct inside' inside rfl)).2

/-- What a selection costs, its candidate of a mod id apart. -/
theorem cost_exchange (bias : Int) (request : Request) (modId : String) (candidate : Candidate)
    (loaded : List (String × Candidate)) : request.cost bias (exchange modId candidate loaded) =
      request.weightOf bias (modId, candidate) + request.cost bias (without modId loaded) := rfl

theorem Admissible.cost_eq (admissible : request.Admissible loaded) (bias : Int)
    (inside : (modId, candidate) ∈ loaded) : request.cost bias loaded =
      request.weightOf bias (modId, candidate) + request.cost bias (without modId loaded) := by
  rw [← cost_exchange, request.cost_perm bias (exchange_perm admissible.distinct inside)]

/-- **A cheapest selection has no candidate that could be exchanged for one that weighs less.** -/
theorem Cheapest.weightOf_le (cheapest : request.Cheapest bias loaded)
    (inside : (modId, candidate) ∈ loaded)
    (admissible : request.Admissible (exchange modId better loaded)) :
    request.weightOf bias (modId, candidate) ≤ request.weightOf bias (modId, better) := by
  have least := cheapest.least _ admissible
  rw [cheapest.admissible.cost_eq bias inside, cost_exchange] at least
  omega

/-- What costs no more than a cheapest selection is one. -/
theorem Cheapest.of_cost_le (cheapest : request.Cheapest bias loaded)
    (admissible : request.Admissible other)
    (light : request.cost bias other ≤ request.cost bias loaded) : request.Cheapest bias other :=
  ⟨admissible, fun third allowed => Int.le_trans light (cheapest.least third allowed)⟩

/-- To exchange a candidate that need not be loaded for one of the same mod id is admissible if that
breaks no rule. -/
theorem Consistent.admissible_exchange (admissible : request.Admissible loaded)
    (inside : (modId, candidate) ∈ loaded) (free : candidate.mandatory = false)
    (known : (modId, better) ∈ request.candidates)
    (consistent : Consistent (exchange modId better loaded)) :
    request.Admissible (exchange modId better loaded) := by
  refine consistent.admissible (fun entry inside' => ?_) fun entry known' must => ?_
  · rcases mem_exchange.mp inside' with rfl | ⟨old, _⟩
    · exact known
    · exact admissible.known entry old
  · have inside' := admissible.mandatory entry known' must
    refine mem_exchange.mpr (.inr ⟨inside', ?_⟩)
    rintro rfl
    rw [admissible.only inside inside', free] at must
    cases must

/-! ### Pools in the order of the request -/

/-- The candidates of a pool stand together in the order of the request. -/
theorem exists_lineup {pool : List Candidate} (entered : request.pools.get? modId = some pool) :
    ∃ early late, request.lineup =
        early ++ (Resolver.ranked pool).map (fun candidate => (modId, candidate)) ++ late ∧
      ∀ entry ∈ early, entry.1 ≠ modId := by
  obtain ⟨front, back, split⟩ :=
    List.append_of_mem (OrderedMap.get?_eq_some_iff.mp entered)
  have distinct := request.pools.distinct
  rw [split, List.map_append, List.map_cons, List.nodup_append] at distinct
  unfold lineup
  rw [split, List.flatMap_append, List.flatMap_cons, ← List.append_assoc]
  refine ⟨_, _, rfl, fun entry inside own => ?_⟩
  obtain ⟨other, among, held⟩ := List.mem_flatMap.mp inside
  obtain ⟨_, _, rfl⟩ := List.mem_map.mp held
  exact distinct.2.2 other.1 (List.mem_map_of_mem among) modId List.mem_cons_self own

/-- **The tie-break of the favourite within one pool**: where another cheapest selection differs in
this pool only, the first candidate of the pool where it does is loaded just when that lowers the
cost. -/
theorem Favourite.first_of_pool (favourite : request.Favourite bias loaded)
    (cheapest : request.Cheapest bias other)
    (elsewhere : ∀ entry : String × Candidate, entry.1 ≠ modId → (entry ∈ loaded ↔ entry ∈ other))
    {front back : List Candidate}
    (split : Resolver.ranked (request.pool modId) = front ++ candidate :: back)
    (before : ∀ earlier ∈ front, (modId, earlier) ∈ loaded ↔ (modId, earlier) ∈ other)
    (differ : ¬((modId, candidate) ∈ loaded ↔ (modId, candidate) ∈ other)) :
    (modId, candidate) ∈ loaded ↔ request.weightOf bias (modId, candidate) < 0 := by
  unfold pool at split
  cases entered : request.pools.get? modId with
  | none =>
    rw [entered] at split
    have empty : Resolver.ranked [] = [] := List.mergeSort_nil
    exact absurd (empty.symm.trans split) (by simp)
  | some pool =>
    rw [entered, Option.getD_some] at split
    obtain ⟨early, late, lined, others⟩ := exists_lineup entered
    rw [split, List.map_append, List.map_cons] at lined
    refine favourite.first other cheapest (early ++ front.map fun candidate => (modId, candidate))
      (modId, candidate) (back.map (fun candidate => (modId, candidate)) ++ late) ?_
      (fun entry inside => ?_) differ
    · rw [lined]
      simp only [List.append_assoc, List.cons_append]
    · rcases List.mem_append.mp inside with far | near
      · exact elsewhere entry (others entry far)
      · obtain ⟨earlier, among, rfl⟩ := List.mem_map.mp near
        exact before earlier among

/-- **An exchange for an earlier candidate that costs nothing was passed over because the candidate
does not lower the cost.** -/
theorem Favourite.exchange_tied (proper : request.Proper)
    (favourite : request.Favourite bias loaded) (inside : (modId, candidate) ∈ loaded)
    {front back : List Candidate}
    (split : Resolver.ranked (request.pool modId) = front ++ better :: back)
    (after : candidate ∈ back)
    (admissible : request.Admissible (exchange modId better loaded))
    (light : request.weightOf bias (modId, better) ≤ request.weightOf bias (modId, candidate)) :
    request.weightOf bias (modId, better) = request.weightOf bias (modId, candidate) ∧
      0 ≤ request.weightOf bias (modId, better) := by
  have least := favourite.weightOf_le inside admissible
  have cheapest : request.Cheapest bias (exchange modId better loaded) := by
    refine favourite.of_cost_le admissible ?_
    rw [favourite.admissible.cost_eq bias inside, cost_exchange]
    omega
  refine ⟨Int.le_antisymm light least, Int.not_lt.mp fun lowers => ?_⟩
  have nodup := Resolver.nodup_ranked proper modId
  rw [split, List.nodup_append, List.nodup_cons] at nodup
  obtain ⟨_, ⟨once, _⟩, apart⟩ := nodup
  have own : ∀ earlier, (modId, earlier) ∈ loaded → earlier = candidate :=
    fun _ => favourite.admissible.only inside
  have absent : (modId, better) ∉ loaded := fun inside' => once (own better inside' ▸ after)
  refine absent ((favourite.first_of_pool cheapest (fun entry other => ?_) split
    (fun earlier among => ?_) ?_).mpr lowers)
  · rw [mem_exchange]
    exact ⟨fun inside' => .inr ⟨inside', other⟩, fun inside' => inside'.elim
      (fun equal => absurd (congrArg Prod.fst equal) other) And.left⟩
  · rw [mem_exchange_own]
    refine iff_of_false (fun inside' => ?_) fun equal => ?_
    · exact apart earlier among candidate (List.mem_cons_of_mem _ after) (own earlier inside')
    · exact apart earlier among better List.mem_cons_self equal
  · rw [mem_exchange_own]
    exact fun same => absent (same.mpr rfl)

/-! ### What better candidates weigh -/

/-- What a candidate weighs is not cut off at the upper end of the weights. -/
def Fits (bias : Int) (request : Request) (entry : String × Candidate) : Prop :=
  entry.2.weight + request.placeOf entry.1 entry.2.key ≤ weightMax ∧
    entry.2.weight + request.placeOf entry.1 entry.2.key - bias ≤ weightMax

end Request

namespace Resolver

variable {bias : Int} {candidate better : Candidate} {place place' : Nat}

theorem saturate_mono {less more : Int} (le : less ≤ more) : saturate less ≤ saturate more := by
  unfold saturate
  omega

/-- **At no greater declared weight, an earlier candidate weighs no more.** -/
theorem derivedWeight_le (free : candidate.mandatory = false) (free' : better.mandatory = false)
    (before : place ≤ place') (less : better.weight ≤ candidate.weight) :
    derivedWeight bias place better ≤ derivedWeight bias place' candidate := by
  unfold derivedWeight
  rw [free, free', if_neg Bool.false_ne_true, if_neg Bool.false_ne_true]
  have first := saturate_mono (show better.weight + place ≤ candidate.weight + place' by omega)
  exact saturate_mono (Int.sub_le_sub_right first bias)

/-- **An earlier candidate that does not lower the cost weighs less**, unless what the later one
weighs is cut off at the upper end. -/
theorem derivedWeight_lt (free : candidate.mandatory = false) (free' : better.mandatory = false)
    (before : place < place') (less : better.weight ≤ candidate.weight)
    (stored : weightMin ≤ better.weight) (fits : candidate.weight + place' ≤ weightMax)
    (fits' : candidate.weight + place' - bias ≤ weightMax)
    (costs : 0 ≤ derivedWeight bias place better) :
    derivedWeight bias place better < derivedWeight bias place' candidate := by
  unfold derivedWeight saturate at costs ⊢
  rw [free', if_neg Bool.false_ne_true] at costs ⊢
  rw [free, if_neg Bool.false_ne_true]
  have lowest : weightMin < 0 := by decide
  omega

section Better

variable {request : Request} {modId : String} {loaded : List (String × Candidate)}

/-- What outranks a candidate of its pool stands before it. -/
theorem exists_ranked (proper : request.Proper) (known : (modId, candidate) ∈ request.candidates)
    (known' : (modId, better) ∈ request.candidates) (outranks : better.Outranks candidate) :
    ∃ front middle back,
      ranked (request.pool modId) = front ++ better :: (middle ++ candidate :: back) := by
  have order := ranked_perm (request.pool modId)
  have sorted := ranked_outranks (nodup_keys_ranked proper modId)
  obtain ⟨front, rest, split⟩ :=
    List.append_of_mem (order.mem_iff.mpr (mem_pool.mpr known'))
  have inside := order.mem_iff.mpr (mem_pool.mpr known)
  rw [split, List.pairwise_append] at sorted
  rw [split, List.mem_append, List.mem_cons] at inside
  rcases inside with early | rfl | late
  · exact absurd (sorted.2.2 _ early _ List.mem_cons_self) outranks.asymm
  · exact absurd outranks outranks.asymm
  · obtain ⟨middle, back, split'⟩ := List.append_of_mem late
    exact ⟨front, middle, back, split' ▸ split⟩

/-- It has an earlier place. -/
theorem placeOf_lt (proper : request.Proper) {front middle back : List Candidate}
    (split : ranked (request.pool modId) = front ++ better :: (middle ++ candidate :: back)) :
    request.placeOf modId better.key < request.placeOf modId candidate.key := by
  have here : (ranked (request.pool modId))[front.length]? = some better := by simp [split]
  have later : (ranked (request.pool modId))[(front ++ better :: middle).length]? =
      some candidate := by simp [split]
  rw [placeOf_ranked proper here, placeOf_ranked proper later, List.length_append, List.length_cons]
  omega

/-- **An exchange for a better candidate that breaks no rule changes no cost**: neither candidate
lowers it, and what the old one weighs does not fit. -/
theorem exchange_of_outranks (proper : request.Proper) (favourite : request.Favourite bias loaded)
    (inside : (modId, candidate) ∈ loaded) (free : candidate.mandatory = false)
    (known : (modId, better) ∈ request.candidates) (outranks : better.Outranks candidate)
    (less : better.weight ≤ candidate.weight)
    (consistent : Request.Consistent (Request.exchange modId better loaded)) :
    request.weightOf bias (modId, better) = request.weightOf bias (modId, candidate) ∧
      0 ≤ request.weightOf bias (modId, candidate) ∧
      (weightMin ≤ better.weight → ¬request.Fits bias (modId, candidate)) := by
  have free' : better.mandatory = false := by
    rw [← Bool.not_eq_true]
    intro must
    cases favourite.admissible.only inside (favourite.admissible.mandatory _ known must)
    exact outranks.asymm outranks
  obtain ⟨front, middle, back, split⟩ :=
    exists_ranked proper (favourite.admissible.known _ inside) known outranks
  have before := placeOf_lt proper split
  have admissible := consistent.admissible_exchange favourite.admissible inside free known
  obtain ⟨tied, costs⟩ := favourite.exchange_tied proper inside split
    (List.mem_append_right _ List.mem_cons_self) admissible
    (derivedWeight_le free free' (Nat.le_of_lt before) less)
  refine ⟨tied, tied ▸ costs, fun stored fits => ?_⟩
  have lighter := derivedWeight_lt free free' before less stored fits.1 fits.2 costs
  exact Int.ne_of_lt lighter tied

end Better

/-- **Better versions are not passed over**, as long as weights are not cut off at the upper end.
Take a candidate that is loaded but need not be, and one of its pool that outranks it and declares
no greater weight. If what the loaded one weighs fits in 64 bits at every step, then to exchange it
for the better one breaks a rule. If the exchange breaks none, then the two weigh the same, and
neither lowers the cost. -/
theorem resolve_keeps_better {events : List OutsideEvent} {request : Request} {resolver : Resolver}
    {report : Resolution}
    (solved : (resolveAmid events request resolver).1 = .ok (.solved report)) :
    ∃ loaded, request.Admissible loaded ∧ report.Reports request loaded ∧
      ∀ modId candidate better, (modId, candidate) ∈ loaded → candidate.mandatory = false →
        (modId, better) ∈ request.candidates → better.Outranks candidate →
        better.weight ≤ candidate.weight →
        (weightMin ≤ better.weight →
          request.Fits resolver.config.inclusionBias (modId, candidate) →
          ¬Request.Consistent (Request.exchange modId better loaded)) ∧
        (Request.Consistent (Request.exchange modId better loaded) →
          request.weightOf resolver.config.inclusionBias (modId, better) =
              request.weightOf resolver.config.inclusionBias (modId, candidate) ∧
            0 ≤ request.weightOf resolver.config.inclusionBias (modId, candidate)) := by
  obtain ⟨proper, _⟩ := proper_of_solved solved
  obtain ⟨loaded, favourite, reports⟩ := favourite_of_solved solved
  refine ⟨loaded, favourite.admissible, reports, ?_⟩
  intro modId candidate better inside free known outranks less
  have exchanged := exchange_of_outranks proper favourite inside free known outranks less
  exact ⟨fun stored fits consistent => (exchanged consistent).2.2 stored fits,
    fun consistent => ⟨(exchanged consistent).1, (exchanged consistent).2.1⟩⟩

/-- Candidates of a proper request are known by their keys. -/
theorem eq_of_keys_eq {request : Request} (proper : request.Proper)
    {loaded other : List (String × Candidate)}
    (known : ∀ entry ∈ loaded, entry ∈ request.candidates)
    (known' : ∀ entry ∈ other, entry ∈ request.candidates)
    (same : loaded.map (fun entry => (entry.1, entry.2.key)) =
      other.map fun entry => (entry.1, entry.2.key)) : loaded = other := by
  induction loaded generalizing other with
  | nil => exact (List.map_eq_nil_iff.mp same.symm).symm
  | cons entry rest ih =>
    obtain ⟨entry', rest', rfl, here, later⟩ := List.map_eq_cons_iff.mp same.symm
    rw [List.forall_mem_cons] at known known'
    rw [ih known.2 known'.2 later.symm, List.inj_on_of_nodup_map proper.distinct known.1 known'.1
      (Prod.mk.inj here).2.symm]

/-- A mandatory candidate that depends on some versions of another mod. -/
def dependent (versions : Constraint) : Candidate :=
  (Candidate.plain "app" (.ofNumbers [1])).asMandatory.dependingOn (.only "lib" versions false none)

/-- The request of a dependent candidate and the pool it depends on. -/
def asking (versions : Constraint) (pool : List Candidate) : Request :=
  ⟨⟨[("app", [dependent versions]), ("lib", pool)], (by decide : ["app", "lib"].Nodup)⟩⟩

/-- The dependency is on a version that is not the best of its pool. -/
def pinned : Request :=
  asking (.exact (.ofNumbers [1, 0])) libs

/-- The higher version is passed over because of the dependency. -/
theorem resolve_keeps_better_of_pinned :
    ∃ report, (resolveAmid [.quiet] pinned (ofConfig .standard)).1 = .ok (.solved report) ∧
      report.selected.entries = [("app", "app"), ("lib", "lib a")] ∧
      ∃ loaded, report.Reports pinned loaded ∧
        ¬Request.Consistent (Request.exchange "lib"
          (Candidate.plain "lib c" (.ofNumbers [2])) loaded) := by
  have pools : pinned.pools.entries = [("app", [dependent (.exact (.ofNumbers [1, 0]))]),
    ("lib", libs)] := rfl
  have answered : (solved? (resolveAmid [.quiet] pinned (ofConfig .standard)).1).map
      (fun report => report.selected.entries) = some [("app", "app"), ("lib", "lib a")] := by
    unfold resolveAmid resolution addRequest registerCandidates
    simp only [pools, registerPools, ranked_libs]
    decide +kernel
  obtain ⟨report, found, selected⟩ := Option.map_eq_some_iff.mp answered
  have solved := solved?_eq_some_iff.mp found
  obtain ⟨proper, _⟩ := proper_of_solved solved
  obtain ⟨loaded, admissible, reports, keeps⟩ := resolve_keeps_better solved
  have chosen : loaded = [("app", dependent (.exact (.ofNumbers [1, 0]))),
      ("lib", Candidate.plain "lib a" (.ofNumbers [1, 0]))] := by
    refine eq_of_keys_eq proper admissible.known ?_ (reports.selected.symm.trans selected)
    simp [pinned, asking, libs, Request.candidates]
  have order : ranked (pinned.pool "lib") = [Candidate.plain "lib c" (.ofNumbers [2])] ++
      Candidate.plain "lib a" (.ofNumbers [1, 0]) :: [Candidate.plain "lib b" (.ofNumbers [1])] :=
    ranked_libs
  have fits : pinned.Fits Config.standard.inclusionBias
      ("lib", Candidate.plain "lib a" (.ofNumbers [1, 0])) := by
    unfold Request.Fits
    rw [placeOf_ranked proper (show (ranked (pinned.pool "lib"))[1]? = some _ by rw [order]; rfl)]
    decide
  refine ⟨report, solved, selected, loaded, reports, ?_⟩
  refine (keeps "lib" (Candidate.plain "lib a" (.ofNumbers [1, 0])) _ ?_ rfl ?_
    (by decide +kernel) (Int.le_refl 0)).1 (by decide) fits
  · rw [chosen]
    exact .tail _ (.head _)
  · simp [pinned, asking, libs, Request.candidates]

/-- A candidate with the greatest weight. -/
def heaviest (key : String) (number : Nat) : Candidate :=
  (Candidate.plain key (.ofNumbers [number])).withWeight weightMax

/-- The dependency is on any of two candidates with the greatest weight. -/
def brimful : Request :=
  asking .any [heaviest "lib 2" 2, heaviest "lib 1" 1]

/-- **At the upper end of the weights a better version is passed over**, although it declares the
same weight and the exchange breaks no rule. -/
theorem passed_over_of_brimful :
    ∃ report loaded, (resolve brimful (ofConfig .standard)).1 = .ok (.solved report) ∧
      report.Reports brimful loaded ∧
      ("lib", heaviest "lib 1" 1) ∈ loaded ∧ (heaviest "lib 1" 1).mandatory = false ∧
      ("lib", heaviest "lib 2" 2) ∈ brimful.candidates ∧
      (heaviest "lib 2" 2).Outranks (heaviest "lib 1" 1) ∧
      (heaviest "lib 2" 2).weight ≤ (heaviest "lib 1" 1).weight ∧
      Request.Consistent (Request.exchange "lib" (heaviest "lib 2" 2) loaded) := by
  have order : ranked [heaviest "lib 2" 2, heaviest "lib 1" 1] =
      [heaviest "lib 2" 2, heaviest "lib 1" 1] := ranked_eq .rfl (by decide +kernel)
  have pools : brimful.pools.entries =
    [("app", [dependent .any]), ("lib", [heaviest "lib 2" 2, heaviest "lib 1" 1])] := rfl
  have answered : (solved? (resolve brimful (ofConfig .standard)).1).map
      (fun report => report.selected.entries) = some [("app", "app"), ("lib", "lib 1")] := by
    unfold resolve resolution addRequest registerCandidates
    simp only [pools, registerPools, order]
    decide +kernel
  obtain ⟨report, found, selected⟩ := Option.map_eq_some_iff.mp answered
  have solved := solved?_eq_some_iff.mp found
  rw [← resolveAmid_nil] at solved
  obtain ⟨proper, _⟩ := proper_of_solved solved
  obtain ⟨loaded, favourite, reports⟩ := favourite_of_solved solved
  have chosen : loaded = [("app", dependent .any), ("lib", heaviest "lib 1" 1)] := by
    refine eq_of_keys_eq proper favourite.admissible.known ?_
      (reports.selected.symm.trans selected)
    simp [brimful, asking, Request.candidates]
  subst chosen
  refine ⟨report, _, solved, reports, .tail _ (.head _), rfl, ?_, by decide +kernel,
    Int.le_refl weightMax, by decide +kernel⟩
  simp [brimful, asking, Request.candidates]

end Resolver

end Loadout
