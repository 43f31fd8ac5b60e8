/-
**The one selection that is reported.**

Of several cheapest selections a resolution reports the *favourite* (`Request.Favourite`): at the
first candidate, in the order in which they are registered, where another cheapest selection differs
from it, it has the candidate just when loading that lowers the cost. So the request alone decides
what is loaded:

* `Favourite.unique`: there is one favourite, up to the order of its candidates;
* `lowers_seat`: a seat lowers the cost just when its derived weight is negative;
* `favourite_of_chosen`: what is chosen under the rules of a request is its favourite;
* **`favourite_of_solved`**: every resolution reports the favourite, whatever happens outside.
-/

import Loadout.Proofs.Engine.Leanings
import Loadout.Proofs.Resolver.Faults
import Loadout.Proofs.Resolver.Pools

namespace Loadout

namespace Request

variable {bias : Int} {request : Request} {loaded other : List (String × Candidate)}

/-- **Of the cheapest selections, the one that comes first**: at the first candidate where another
one differs, it has the candidate just when loading that lowers the cost. -/
structure Favourite (bias : Int) (request : Request) (loaded : List (String × Candidate)) : Prop
    extends request.Cheapest bias loaded where
  first : ∀ other, request.Cheapest bias other → ∀ before entry after,
    request.lineup = before ++ entry :: after →
    (∀ earlier ∈ before, earlier ∈ loaded ↔ earlier ∈ other) →
    ¬(entry ∈ loaded ↔ entry ∈ other) → (entry ∈ loaded ↔ request.weightOf bias entry < 0)

/-- **There is one favourite**, up to the order of its candidates. -/
theorem Favourite.unique (one : request.Favourite bias loaded)
    (two : request.Favourite bias other) : loaded.Perm other := by
  have alike : ∀ before after, request.lineup = before ++ after →
      ∀ entry ∈ before, entry ∈ loaded ↔ entry ∈ other := by
    intro before
    induction before using List.reverseRecOn with
    | nil => exact fun _ _ _ inside => absurd inside List.not_mem_nil
    | append_singleton before entry ih =>
      intro after split
      rw [List.append_assoc, List.singleton_append] at split
      have earlier := ih _ split
      intro candidate inside
      rcases List.mem_append.mp inside with early | last
      · exact earlier candidate early
      · -- where the two differed, both would have the candidate or neither
        rw [List.mem_singleton.mp last]
        by_contra differ
        have here := one.first other two.toCheapest before entry after split earlier differ
        have there := two.first loaded one.toCheapest before entry after split
          (fun candidate inside => (earlier candidate inside).symm) fun same => differ same.symm
        exact differ (here.trans there.symm)
  refine (List.perm_ext_iff_of_nodup one.admissible.nodup two.admissible.nodup).mpr
    fun entry => ?_
  by_cases known : entry ∈ request.lineup
  · exact alike request.lineup [] (List.append_nil _).symm entry known
  · rw [(Resolver.lineup_perm request).mem_iff] at known
    exact iff_of_false (fun inside => known (one.admissible.known entry inside))
      fun inside => known (two.admissible.known entry inside)

end Request

namespace Resolver

open Engine

variable {bias : Int} {request : Request} {later : ChoiceTable} {forest : Forest}
  {value : ChoiceId → Bool}

/-! ### Seats that lower the cost -/

section Seats

variable {seats : List Seat} {id : ChoiceId} {seat : Seat}

theorem isRoot_seat (extends' : (tableOf bias seats).Extends later)
    (found : seats[id]? = some seat) : later.isRoot id = true := by
  have within := lt_size_tableOf bias (List.getElem?_eq_some_iff.mp found).1
  rw [ChoiceTable.isRoot_iff, extends'.contains within, extends'.target?]
  exact ⟨(plain_tableOf bias seats).contains_iff.mpr within, target?_seat bias found⟩

theorem root_seat (extends' : (tableOf bias seats).Extends later)
    (found : seats[id]? = some seat) : later.root id = id := by
  rw [extends'.root (plain_tableOf bias seats).grounded]
  exact ChoiceTable.root_of_final (target?_seat bias found)

/-- Whatever weighs something is a seat. -/
theorem exists_seat (extends' : (tableOf bias seats).Extends later) {entry : ChoiceEntry}
    (found : later.entries[id]? = some entry) (heavy : entry.weight ≠ 0) :
    ∃ seat, seats[id]? = some seat ∧ entry = seat.entry bias := by
  by_cases inside : id < (tableOf bias seats).entries.size
  · rw [extends'.getElem? inside] at found
    rcases entries_tableOf.mp found with sits | ⟨_, provided⟩
    · exact sits
    · obtain ⟨_, _, _, _, rfl⟩ := mem_aliases.mp (List.mem_of_getElem? provided)
      exact absurd rfl heavy
  · obtain ⟨_, rfl⟩ := extends'.getElem?_branch (Nat.le_of_not_lt inside) found
    exact absurd rfl heavy

/-- **A seat lowers the cost just when its derived weight is negative**: what else has it as its
root weighs nothing. -/
theorem lowers_seat (extends' : (tableOf bias seats).Extends later)
    (found : seats[id]? = some seat) :
    later.Lowers id ↔ derivedWeight bias seat.place seat.candidate < 0 := by
  have plain := extends'.plain (plain_tableOf bias seats)
  constructor
  · rintro ⟨other, weight, weighs, lowers, same⟩
    obtain ⟨entry, listed, rfl⟩ := Option.map_eq_some_iff.mp weighs
    rw [plain.registered?] at listed
    obtain ⟨sitting, sits, rfl⟩ := exists_seat extends' listed (Int.ne_of_lt lowers)
    rw [root_seat extends' sits] at same
    rw [same, found] at sits
    cases sits
    exact lowers
  · intro lowers
    refine ⟨id, _, ?_, lowers, root_seat extends' found⟩
    unfold ChoiceTable.weight?
    have within := lt_size_tableOf bias (List.getElem?_eq_some_iff.mp found).1
    rw [plain.registered?, extends'.getElem? within,
      entries_tableOf.mpr (.inl ⟨seat, found, rfl⟩)]
    rfl

end Seats

/-! ### What is chosen -/

/-- The candidate at a place in the order of a request is selected just when its seat is loaded. -/
theorem exists_seat_of_lineup (proper : request.Proper) {id : ChoiceId} {entry : String × Candidate}
    (found : request.lineup[id]? = some entry) :
    ∃ seat, request.seats[id]? = some seat ∧ (seat.modId, seat.candidate) = entry ∧
      ∀ value, entry ∈ selected request.seats value ↔ value id = true := by
  rw [← entries_seats, List.getElem?_map, Option.map_eq_some_iff] at found
  obtain ⟨seat, sits, rfl⟩ := found
  refine ⟨seat, sits, rfl, fun value => mem_selected.trans ⟨?_, fun holds => ?_⟩⟩
  · rintro ⟨other, inside, holds, same⟩
    have here : ⟨seat.modId, seat.candidate, id⟩ ∈ seated 0 request.seats :=
      mem_seated.mpr ⟨seat, sits, rfl, rfl⟩
    rwa [eq_of_entry_eq proper inside here same] at holds
  · exact ⟨⟨seat.modId, seat.candidate, id⟩, mem_seated.mpr ⟨seat, sits, rfl, rfl⟩, holds, rfl⟩

/-- **What is chosen under the rules of a request is its favourite.** -/
theorem favourite_of_chosen (proper : request.Proper)
    (builds : Forest.Builds (tableOf bias request.seats) later .empty forest
      (RequestMet bias request)) {model : Array Bool} (chosen : forest.Chosen later model) :
    request.Favourite bias
      (selected request.seats ((Numbering.ofTable later).read (valuation model))) := by
  have admissible := admissible_of_satisfied proper builds chosen.satisfied
  have cheapest : request.Cheapest bias
      (selected request.seats ((Numbering.ofTable later).read (valuation model))) :=
    ⟨admissible, fun _ => least_of_satisfied proper builds fun _ => chosen.least⟩
  refine ⟨cheapest, fun other cheapest' before entry after split earlier differ => ?_⟩
  obtain ⟨value, satisfied, order⟩ := satisfied_of_admissible proper builds cheapest'.admissible
  have light : later.totalWeight (later.loadedBy value) ≤ later.totalWeight
      (later.loadedBy ((Numbering.ofTable later).read (valuation model))) := by
    rw [cost_selected proper builds.extends', cost_selected proper builds.extends',
      Request.cost_perm _ _ order]
    exact cheapest'.least _ admissible
  have found : request.lineup[before.length]? = some entry := by
    rw [split, List.getElem?_append_right (Nat.le_refl _), Nat.sub_self]
    rfl
  obtain ⟨seat, sits, rfl, here⟩ := exists_seat_of_lineup proper found
  rw [← order.mem_iff, here, here, ← Bool.eq_iff_iff] at differ
  have leans := chosen.leans satisfied light (isRoot_seat builds.extends' sits)
    (fun id below => ?_) differ
  · rw [here, leans, lowers_seat builds.extends' sits,
      place_of_mem proper (List.mem_of_getElem? sits)]
    rfl
  · have found' : request.lineup[id]? = some before[id] := by
      rw [split, List.getElem?_append_left below, List.getElem?_eq_getElem below]
    obtain ⟨_, _, _, there⟩ := exists_seat_of_lineup proper found'
    have same := earlier _ (List.getElem_mem below)
    rwa [← order.mem_iff, there, there, ← Bool.eq_iff_iff] at same

section Solved

variable {events : List OutsideEvent} {resolver : Resolver} {report : Resolution}

/-- The request behind a resolution is proper, and its resolver was not cancelled for good. -/
theorem proper_of_solved
    (solved : (resolveAmid events request resolver).1 = .ok (.solved report)) :
    request.Proper ∧ resolver.signal.isPoisoned = false := by
  refine ⟨proper_of_resolution (Prod.ext solved rfl), Bool.not_eq_true _ ▸ fun poisoned => ?_⟩
  have refused :
      ((create resolver.config resolver.signal).amid events).signal.isPoisoned = true := poisoned
  obtain ⟨error, failed, _⟩ := resolution_poisoned resolver.config request refused
  cases failed.symm.trans solved

/-- **What is sorted out to a resolution was chosen under the rules of its request**, in every
world. -/
theorem settles_of_solved
    (solved : (resolveAmid events request resolver).1 = .ok (.solved report)) :
    ∃ later forest, Forest.Builds (tableOf resolver.config.inclusionBias request.seats) later
        .empty forest (RequestMet resolver.config.inclusionBias request) ∧
      Settles request later forest (.solved report) := by
  obtain ⟨proper, free⟩ := proper_of_solved solved
  obtain ⟨config, signal⟩ := resolver
  obtain ⟨later, forest, drafts, builds⟩ := addRequest_gives config config.inclusionBias proper
  have added : Gives (addRequest config.inclusionBias request) ((create config signal).amid events)
      (seated 0 request.seats) ((draft config later forest).elsewhere signal events) :=
    (registers_addRequest config.inclusionBias request).gives drafts free events
  have given : Gives (resolution config request) ((create config signal).amid events)
      (.solved report) _ := Prod.ext solved rfl
  obtain ⟨_, _, added', rest⟩ := given.of_bind
  cases added.symm.trans added'
  obtain ⟨feasible, checked, asked, rest⟩ := rest.of_bind
  have answered : ((draft config later forest).elsewhere signal events).hasSolution =
      (.ok feasible, checked) := asked
  have workable : ((draft config later forest).elsewhere signal events).Workable :=
    workable_draft builds.tidy signal events
  have replied := workable.hasSolution
  rw [answered] at replied
  cases replied with
  | interrupted stopped => obtain stopped | stopped := stopped <;> cases stopped
  | feasible choices forest' ready informed prepared =>
    obtain ⟨loaded, found, searched, rest⟩ := rest.of_bind
    have solution : checked.solution = (.ok loaded, found) := searched
    have kept := ((conduct_solution informed prepared).kept (.inl ready)).1
    rw [solution] at kept
    have other : ((draft config later forest).elsewhere signal events).step ≠ .ready := nofun
    obtain ⟨model, chosen, listed⟩ : ∃ model, forest.Chosen later model ∧
        loaded = later.loadedBy ((Numbering.ofTable later).read (valuation model)) := by
      have chosen := solution_chosen other answered (congrArg Prod.fst solution)
      rwa [forest', choices] at chosen
    obtain ⟨report', sorted, _⟩ := sortOut_spec builds.extends'
      (admissible_of_satisfied proper builds chosen.satisfied)
    obtain ⟨_, _, reads, rest⟩ := rest.of_bind
    cases reads
    rw [show found.choices = later from kept.trans choices, listed, sorted] at rest
    cases rest
    exact ⟨later, forest, builds, model, chosen, sorted⟩
  | infeasible _ _ _ =>
    obtain ⟨_, _, _, rest⟩ := rest.of_bind
    cases rest

/-- **Every resolution reports the favourite of its request**, whatever cancellation the resolver
starts under, whatever its time limit is and whatever happens while it searches. -/
theorem favourite_of_solved
    (solved : (resolveAmid events request resolver).1 = .ok (.solved report)) :
    ∃ loaded, request.Favourite resolver.config.inclusionBias loaded ∧
      report.Reports request loaded := by
  obtain ⟨proper, _⟩ := proper_of_solved solved
  obtain ⟨later, forest, builds, model, chosen, sorted⟩ := settles_of_solved solved
  obtain ⟨report', sorted', reports⟩ := sortOut_reports proper builds.extends'
    (admissible_of_satisfied proper builds chosen.satisfied)
  cases sorted.symm.trans sorted'
  exact ⟨_, favourite_of_chosen proper builds chosen, reports⟩

end Solved

end Resolver

end Loadout
