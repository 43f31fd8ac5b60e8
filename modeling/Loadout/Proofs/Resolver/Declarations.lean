/-
**The order of declarations does not matter.**

A request may list what its candidates depend on and break in another order, at every depth. Its
choices and what its rules ask of them are the same then; only the branches differ, and those have
no say in what is loaded:

* `selected_reordered`: the same seats select the same candidates up to the order of declarations;
* `sortOut_reordered`: they are sorted out alike;
* `settles_reordered`: what settles the one request settles the other;
* **`resolve_reordered`**: the requests have the same resolution, or neither has any.
-/

import Loadout.Proofs.Resolver.Branches
import Loadout.Proofs.Resolver.Outcomes
import Loadout.Proofs.Resolver.Refusals
import Loadout.Proofs.Resolver.Reordering

namespace Loadout

/-- Resolutions with the same entries are the same. -/
theorem Resolution.eq_of_entries {report report' : Resolution}
    (selected : report.selected.entries = report'.selected.entries)
    (provided : report.provided.entries = report'.provided.entries)
    (rejected : report.rejected = report'.rejected) : report = report' := by
  cases report
  cases report'
  cases OrderedMap.eq_of_entries selected
  cases OrderedMap.eq_of_entries provided
  cases rejected
  rfl

namespace Resolver

open Engine

variable {bias : Int} {request request' : Request} {later later' : ChoiceTable}
  {forest forest' : Forest} {value value' : ChoiceId → Bool}

/-! ### Selections -/

/-- The seats whose choices pass a test are the same up to the order of declarations. -/
theorem filter_seated_reordered (reordered : request.Reordered request') (test : ChoiceId → Bool) :
    List.Forall₂ Registered.Reordered
      ((seated 0 request.seats).filter fun registered => test registered.choice)
      ((seated 0 request'.seats).filter fun registered => test registered.choice) := by
  refine List.rel_filter (fun registered registered' same => ?_) (seated_reordered reordered)
  show test registered.choice = true ↔ test registered'.choice = true
  rw [same.choice]

/-- The seats that are loaded select the same candidates up to the order of declarations. -/
theorem selected_reordered (reordered : request.Reordered request') (value : ChoiceId → Bool) :
    List.Forall₂ (fun entry entry' => entry.1 = entry'.1 ∧ entry.2.Reordered entry'.2)
      (selected request.seats value) (selected request'.seats value) :=
  List.rel_map (fun _ _ same => ⟨same.modId, same.candidate⟩)
    (filter_seated_reordered reordered value)

/-- They make the same claims. -/
theorem claimsOf_reordered (reordered : request.Reordered request') (value : ChoiceId → Bool) :
    claimsOf (selected request.seats value) = claimsOf (selected request'.seats value) := by
  have same := selected_reordered reordered value
  unfold claimsOf
  congr 1
  · exact map_eq_of_forall₂ same fun entry entry' ⟨modId, candidate⟩ => by
      rw [modId, candidate.key]
  · exact flatMap_eq_of_forall₂ same fun entry entry' ⟨modId, candidate⟩ => by
      rw [candidate.extras, modId, candidate.key]

/-- The same candidates are rejected. -/
theorem rejected_reordered (reordered : request.Reordered request') (value : ChoiceId → Bool) :
    ((seated 0 request.seats).filter fun registered => !value registered.choice).foldl
        (fun rejected entry => rejected.append entry.modId entry.candidate.key)
        OrderedMap.empty =
      ((seated 0 request'.seats).filter fun registered => !value registered.choice).foldl
        (fun rejected entry => rejected.append entry.modId entry.candidate.key) .empty := by
  refine List.rel_foldl (P := Eq) ?_ rfl
    (filter_seated_reordered reordered fun choice => !value choice)
  rintro rejected _ rfl registered registered' same
  dsimp only
  rw [same.modId, same.candidate.key]

/-- **What is loaded is sorted out alike.** -/
theorem sortOut_reordered (reordered : request.Reordered request')
    (extends' : (tableOf bias request.seats).Extends later)
    (extends'' : (tableOf bias request'.seats).Extends later')
    (agree : ChoiceTable.AgreeBelow (tableOf bias request'.seats).entries.size value value')
    (admissible : request.Admissible (selected request.seats value))
    (admissible' : request'.Admissible (selected request'.seats value')) :
    sortOut later (seated 0 request.seats) (later.loadedBy value) =
      sortOut later' (seated 0 request'.seats) (later'.loadedBy value') := by
  obtain ⟨report, sorted, selected', provided, rejected⟩ := sortOut_spec extends' admissible
  obtain ⟨report', sorted', selected'', provided', rejected'⟩ := sortOut_spec extends'' admissible'
  have unloaded : (seated 0 request'.seats).filter (fun registered => !value registered.choice) =
      (seated 0 request'.seats).filter fun registered => !value' registered.choice :=
    List.filter_congr fun registered inside =>
      congrArg (!·) (agree _ (mem_seats_lt inside))
  rw [claimsOf_reordered reordered, selected_congr agree] at selected' provided
  rw [rejected_reordered reordered, unloaded] at rejected
  have same : report = report' := Resolution.eq_of_entries (selected'.trans selected''.symm)
    (provided.trans provided'.symm) (rejected.trans rejected'.symm)
  rw [sorted, sorted', same]

/-! ### Outcomes -/

/-- **What settles a request settles every other one that is the same up to the order of
declarations.** -/
theorem settles_reordered (reordered : request.Reordered request') (proper : request.Proper)
    (builds : Forest.Builds (tableOf bias request.seats) later .empty forest
      (RequestMet bias request))
    (builds' : Forest.Builds (tableOf bias request'.seats) later' .empty forest'
      (RequestMet bias request')) {outcome outcome' : Outcome}
    (settles : Settles request later forest outcome)
    (settles' : Settles request' later' forest' outcome') :
    (∀ report, outcome = .solved report → outcome' = .solved report) ∧
      ∀ problems, outcome = .infeasible problems →
        ∃ problems', outcome' = .infeasible problems' := by
  have proper' := proper.reordered reordered
  have table := tableOf_reordered bias reordered
  -- the rules of both requests ask for the same of one table
  have rules : Forest.Builds (tableOf bias request'.seats) later .empty forest
      (RequestMet bias request') :=
    table ▸ builds.congr fun value => requestMet_reordered bias reordered
  cases outcome with
  | solved report =>
    refine ⟨fun report' same => ?_, nofun⟩
    cases same
    obtain ⟨model, chosen, sorted⟩ := settles
    cases outcome' with
    | solved report' =>
      obtain ⟨model', chosen', sorted'⟩ := settles'
      have agree := rules.chosen_agree (plain_tableOf bias request'.seats).grounded builds' chosen
        chosen'
      have same := sortOut_reordered reordered builds.extends' builds'.extends' agree
        (admissible_of_satisfied proper builds chosen.satisfied)
        (admissible_of_satisfied proper' builds' chosen'.satisfied)
      rw [sorted, sorted'] at same
      cases same
      rfl
    | infeasible problems =>
      obtain ⟨value, _, satisfied⟩ :=
        builds'.complete _ (rules.sound _ (Forest.satisfiedFrom_zero.mpr chosen.satisfied))
      exact absurd ⟨value, Forest.satisfiedFrom_zero.mp satisfied⟩ settles'
  | infeasible problems =>
    refine ⟨nofun, fun _ _ => ?_⟩
    cases outcome' with
    | infeasible problems' => exact ⟨problems', rfl⟩
    | solved report =>
      obtain ⟨model', chosen', _⟩ := settles'
      obtain ⟨value, _, satisfied⟩ :=
        rules.complete _ (builds'.sound _ (Forest.satisfiedFrom_zero.mpr chosen'.satisfied))
      exact absurd ⟨value, Forest.satisfiedFrom_zero.mp satisfied⟩ settles

/-- **The order of declarations does not matter.** Where a resolver has no time limit and is not
cancelled, two requests that are the same up to the order of what their candidates depend on and
break, at every depth, have the same outcome: if one has a resolution, the other has the same, and
if there is none for the one, there is none for the other. -/
theorem resolve_reordered {resolver : Resolver} (reordered : request.Reordered request')
    (patient : resolver.config.timeoutMs = none) (uncancelled : resolver.signal = .clear) :
    (∀ report, (resolve request resolver).1 = .ok (.solved report) →
      (resolve request' resolver).1 = .ok (.solved report)) ∧
    ∀ problems, (resolve request resolver).1 = .ok (.infeasible problems) →
      ∃ problems', (resolve request' resolver).1 = .ok (.infeasible problems') := by
  obtain ⟨config, signal⟩ := resolver
  cases uncancelled
  have runs : ∀ request, (resolve request ⟨config, .clear⟩).1 =
      (resolution config request (create config .clear)).1 := fun _ => rfl
  have outcomes : ∀ outcome, (resolve request ⟨config, .clear⟩).1 = .ok outcome →
      ∃ outcome', (resolve request' ⟨config, .clear⟩).1 = .ok outcome' ∧
        (∀ report, outcome = .solved report → outcome' = .solved report) ∧
        ∀ problems, outcome = .infeasible problems →
          ∃ problems', outcome' = .infeasible problems' := by
    intro outcome answered
    have proper : request.Proper := proper_of_resolution (Prod.ext (runs request ▸ answered) rfl)
    obtain ⟨later, forest, found, _, given, _, builds, settles⟩ := resolution_settled patient proper
    obtain ⟨later', forest', outcome', _, given', _, builds', settles'⟩ :=
      resolution_settled patient (proper.reordered reordered)
    rw [runs, congrArg Prod.fst given] at answered
    cases answered
    exact ⟨outcome', (runs request').trans (congrArg Prod.fst given'),
      settles_reordered reordered proper builds builds' settles settles'⟩
  refine ⟨fun report solved => ?_, fun problems infeasible => ?_⟩
  · obtain ⟨outcome', answered, same, _⟩ := outcomes _ solved
    rw [answered, same report rfl]
  · obtain ⟨outcome', answered, _, same⟩ := outcomes _ infeasible
    obtain ⟨problems', equal⟩ := same problems rfl
    exact ⟨problems', by rw [answered, equal]⟩

/-- A candidate that depends on either of two others, which cannot be loaded together and weigh the
same. -/
def eitherWay (alternatives : List Dependency) : Request :=
  let app := (Candidate.plain "app" default).dependingOn (.any alternatives none)
  let left := (Candidate.plain "left" default).breaking (.only "right" .any false none)
  ⟨⟨[("app", [app]), ("left", [left]), ("right", [Candidate.plain "right" default])],
    show ["app", "left", "right"].Nodup by decide⟩⟩

theorem reordered_eitherWay {alternatives alternatives' : List Dependency}
    (order : alternatives.Perm alternatives') :
    (eitherWay alternatives).Reordered (eitherWay alternatives') := by
  have app : ((Candidate.plain "app" default).dependingOn (.any alternatives none)).Reordered
      ((Candidate.plain "app" default).dependingOn (.any alternatives' none)) :=
    ⟨rfl, rfl, rfl, rfl, rfl, .cons (.any (.of_perm order) .none) .nil, .nil⟩
  exact .cons ⟨rfl, .cons app .nil⟩ <| .cons ⟨rfl, .cons (.refl _) .nil⟩ <|
    .cons ⟨rfl, .cons (.refl _) .nil⟩ .nil

/-- Of two resolutions that cost the same, the same one is found. -/
theorem resolve_reordered_of_eitherWay :
    ∃ report, (resolve (eitherWay [.only "left" .any false none, .only "right" .any false none])
        (ofConfig .standard)).1 = .ok (.solved report) ∧
      (resolve (eitherWay [.only "right" .any false none, .only "left" .any false none])
        (ofConfig .standard)).1 = .ok (.solved report) := by
  have reordered := reordered_eitherWay (.swap (.only "right" .any false none)
    (.only "left" .any false none) [])
  have proper : (eitherWay [.only "left" .any false none, .only "right" .any false none]).Proper :=
    ⟨by decide, by decide⟩
  have patient : Config.standard.timeoutMs = none := rfl
  obtain ⟨outcome, after, given, _, right⟩ := resolution_gives patient proper
  cases outcome with
  | solved report =>
    have solved := congrArg Prod.fst given
    exact ⟨report, solved, (resolve_reordered reordered rfl rfl).1 report solved⟩
  | infeasible problems =>
    exact absurd ⟨[], Request.admissible_nil (by decide)⟩ right

end Resolver

end Loadout
