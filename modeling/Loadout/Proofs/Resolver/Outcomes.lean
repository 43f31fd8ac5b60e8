/-
**Resolving a request gives its cheapest admissible selection.**

For every proper request, a resolver without a time limit that is not cancelled either reports an
admissible selection than which none costs less, or finds that no selection is admissible:

* `sound_draft`: the engine with the rules of a request answers every question;
* `admissible_of_satisfied`, `satisfied_of_admissible`: the selections that satisfy its rules are
  the admissible ones, up to the order of their candidates;
* `resolution_settled`: the outcome is what the rules of the request settle;
* **`resolve_correct`**: the outcome is that of the cheapest admissible selection.
-/

import Loadout.Proofs.Engine.Chosen
import Loadout.Proofs.Resolver.Reports

namespace Loadout

namespace Forest

variable {table : ChoiceTable} {forest : Forest}

theorem Tidy.fresh (tidy : forest.Tidy table 0) {id : RuleId} {node : RuleNode}
    (found : forest.node? id = some node) : node.stale = false := by
  refine (tidy id node.constraints node.stale (Nat.zero_le id) ?_).1
  unfold stored
  rw [found]
  rfl

theorem Tidy.rulesRooted (tidy : forest.Tidy table 0) : RulesRooted table forest.constraints := by
  intro rule inside
  obtain ⟨⟨id, node⟩, member, rfl⟩ := List.mem_map.mp inside
  refine (tidy id node.constraints node.stale (Nat.zero_le id) ?_).2
  unfold stored
  rw [mem_toList_iff.mp member]
  rfl

end Forest

namespace Engine

/-- A draft whose rules are defined answers every question, where no time limit runs. -/
theorem sound_draft {config : Config} {table : ChoiceTable} {forest : Forest}
    (patient : config.timeoutMs = none) (tidy : forest.Tidy table 0) :
    (draft config table forest).Sound where
  idle := ⟨rfl, patient, rfl, rfl⟩
  open' := .inl rfl
  fresh _ _ found := tidy.fresh found
  rooted := tidy.rulesRooted
  failed := nofun

end Engine

namespace Resolver

open Engine

variable {bias : Int} {request : Request} {later : ChoiceTable} {forest : Forest}

/-- Values that satisfy the rules of a request have an admissible selection. -/
theorem admissible_of_satisfied (proper : request.Proper)
    (builds : Forest.Builds (tableOf bias request.seats) later .empty forest
      (RequestMet bias request)) {value : ChoiceId → Bool} (satisfied : forest.SatisfiedBy value) :
    request.Admissible (selected request.seats value) :=
  (requestMet_iff proper).mp
    (builds.sound value (Forest.satisfiedFrom_zero.mpr satisfied))

theorem selected_congr {seats : List Seat} {value other : ChoiceId → Bool}
    (agree : ChoiceTable.AgreeBelow (tableOf bias seats).entries.size value other) :
    selected seats value = selected seats other := by
  unfold selected
  congr 1
  exact List.filter_congr fun registered inside => agree _ (mem_seats_lt inside)

/-- **Every admissible selection is that of values that satisfy the rules.** -/
theorem satisfied_of_admissible (proper : request.Proper)
    (builds : Forest.Builds (tableOf bias request.seats) later .empty forest
      (RequestMet bias request)) {loaded : List (String × Candidate)}
    (admissible : request.Admissible loaded) :
    ∃ value, forest.SatisfiedBy value ∧ (selected request.seats value).Perm loaded := by
  obtain ⟨value, order⟩ := exists_selected proper admissible
  have meets : RequestMet bias request value :=
    (requestMet_iff proper).mpr (admissible.perm order.symm)
  obtain ⟨other, agree, satisfied⟩ := builds.complete value meets
  exact ⟨other, Forest.satisfiedFrom_zero.mp satisfied, selected_congr agree ▸ order⟩

/-- What an outcome has to be: the report of an admissible selection than which none costs less, or
problems where no selection is admissible. -/
def OutcomeRight (bias : Int) (request : Request) : Outcome → Prop
  | .solved resolution => ∃ loaded, request.Admissible loaded ∧
      resolution.Reports request loaded ∧
      ∀ other, request.Admissible other → request.cost bias loaded ≤ request.cost bias other
  | .infeasible _ => ¬∃ loaded, request.Admissible loaded

/-- What settles the outcome of a request, whose rules are those of a forest: the choices that are
loaded under them, or that there are none. -/
def Settles (request : Request) (table : ChoiceTable) (forest : Forest) : Outcome → Prop
  | .solved report => ∃ model, forest.Chosen table model ∧
      sortOut table (seated 0 request.seats)
        (table.loadedBy ((Numbering.ofTable table).read (valuation model))) = .ok report
  | .infeasible _ => ¬∃ value, forest.SatisfiedBy value

/-- **Resolving gives an outcome that the rules of the request settle, and no error.** -/
theorem resolution_settled {config : Config} (patient : config.timeoutMs = none)
    (proper : request.Proper) :
    ∃ later forest outcome after,
      Gives (resolution config request) (create config .clear) outcome after ∧ after.Idle ∧
      Forest.Builds (tableOf config.inclusionBias request.seats) later .empty forest
        (RequestMet config.inclusionBias request) ∧
      Settles request later forest outcome := by
  obtain ⟨later, forest, added, builds⟩ :=
    addRequest_gives config config.inclusionBias proper
  have sound := sound_draft patient builds.tidy
  obtain ⟨answer, checked, asked, kept, verdict, ready, failed⟩ := hasSolution_answer sound
  have feasible := verdict rfl
  have asks : Gives (Engine.hasSolution : Engine → Engine.Outcome Bool) (draft config later forest)
      answer checked := asked
  refine ⟨later, forest, ?_⟩
  cases answer with
  | true =>
    obtain ⟨value, satisfied⟩ := feasible.mp rfl
    have prepared : checked.Prepared := by
      have hence := (prepared_of_step (draft config later forest) nofun).hasSolution
      rwa [asked] at hence
    obtain ⟨loaded, solved, found, kept'⟩ := solution_answer kept.idle prepared (ready rfl)
      ⟨value, by rw [kept.forest]; exact satisfied⟩
    have other : (draft config later forest).step ≠ .ready := nofun
    obtain ⟨model, chosen, listed⟩ : ∃ model, forest.Chosen later model ∧
        loaded = later.loadedBy ((Numbering.ofTable later).read (valuation model)) := by
      have chosen := solution_chosen other asked (congrArg Prod.fst found)
      rwa [kept.forest, kept.choices] at chosen
    obtain ⟨report, sorted, _⟩ := sortOut_spec builds.extends'
      (admissible_of_satisfied proper builds chosen.satisfied)
    refine ⟨.solved report, solved, ?_, kept'.idle, builds, model, chosen, sorted⟩
    have finds : Gives (Engine.solution : Engine → Engine.Outcome (List ChoiceId)) checked loaded
        solved := found
    have same : solved.choices = later := kept'.choices.trans kept.choices
    refine added.bind (asks.bind ?_)
    rw [if_pos rfl]
    refine finds.bind ((gives_get solved).bind ?_)
    rw [same, listed, sorted]
    exact gives_pure _ _
  | false =>
    obtain ⟨_, _, sound'⟩ := failed rfl
    obtain ⟨problems, after, diagnosed, idle⟩ := diagnose_answer config.maxReportedErrors sound'
    refine ⟨.infeasible problems, after, ?_, idle, builds,
      fun satisfiable => Bool.false_ne_true (feasible.mpr satisfiable)⟩
    have explains : Gives (Engine.diagnose config.maxReportedErrors : Engine → Engine.Outcome _)
        checked problems after := diagnosed
    refine added.bind (asks.bind ?_)
    rw [if_neg Bool.false_ne_true]
    exact explains.bind (gives_pure _ _)

/-- **Resolving gives the right outcome, and no error.** -/
theorem resolution_gives {config : Config} (patient : config.timeoutMs = none)
    (proper : request.Proper) :
    ∃ outcome after, Gives (resolution config request) (create config .clear) outcome after ∧
      after.Idle ∧ OutcomeRight config.inclusionBias request outcome := by
  obtain ⟨later, forest, outcome, after, given, idle, builds, settles⟩ :=
    resolution_settled patient proper
  refine ⟨outcome, after, given, idle, ?_⟩
  cases outcome with
  | solved report =>
    obtain ⟨model, chosen, sorted⟩ := settles
    have admissible := admissible_of_satisfied proper builds chosen.satisfied
    obtain ⟨report', sorted', reports⟩ := sortOut_reports proper builds.extends' admissible
    cases sorted.symm.trans sorted'
    refine ⟨_, admissible, reports, fun other allowed => ?_⟩
    obtain ⟨other', satisfied', order⟩ := satisfied_of_admissible proper builds allowed
    rw [← Request.cost_perm _ _ order, ← cost_selected proper builds.extends',
      ← cost_selected proper builds.extends']
    exact chosen.least satisfied'
  | infeasible problems =>
    rintro ⟨loaded, admissible⟩
    obtain ⟨value, satisfied, _⟩ := satisfied_of_admissible proper builds admissible
    exact settles ⟨value, satisfied⟩

/-- What is done with an engine gives the outcome, and leaves the resolver as it was. -/
theorem resolve_of_gives {config : Config} {outcome : Outcome} {after : Engine}
    (given : Gives (resolution config request) (create config .clear) outcome after)
    (idle : after.Idle) :
    resolve request ⟨config, .clear⟩ = (.ok outcome, ⟨config, .clear⟩) := by
  have run : resolution config request (create config .clear) = (.ok outcome, after) := given
  unfold resolve
  dsimp only
  rw [run]
  dsimp only
  rw [idle.signal]

/-- **Resolving is correct.** Where no key occurs twice and no pool has two mandatory candidates, a
resolver without a time limit that is not cancelled finds that no selection of candidates is
admissible, or reports an admissible one than which none costs less. -/
theorem resolve_correct {request : Request} {resolver : Resolver} (proper : request.Proper)
    (patient : resolver.config.timeoutMs = none) (uncancelled : resolver.signal = .clear) :
    ∃ outcome, resolve request resolver = (.ok outcome, resolver) ∧
      OutcomeRight resolver.config.inclusionBias request outcome := by
  obtain ⟨config, signal⟩ := resolver
  cases uncancelled
  obtain ⟨outcome, after, given, idle, right⟩ := resolution_gives patient proper
  exact ⟨outcome, resolve_of_gives given idle, right⟩

/-- A mandatory candidate that depends on one of two mods unless a third is there, and provides a
mod id that another candidate breaks. -/
def bundle : Request :=
  let any (modId : String) : Dependency := .only modId .any false none
  let app := (Candidate.plain "app" default).asMandatory.dependingOn
    (.any [any "new", any "old"] (some (any "none")))
  Request.ofPools [("app", [app.providing ⟨"extra", none⟩]),
    ("new", [(Candidate.plain "new" default).breaking (.only "extra" .any false none)]),
    ("old", [(Candidate.plain "old 1" default).withWeight 5, Candidate.plain "old 2" default])]

theorem resolve_correct_of_bundle :
    bundle.Proper ∧ ∃ outcome,
      resolve bundle (ofConfig .standard) = (.ok outcome, ofConfig .standard) ∧
      OutcomeRight Config.standard.inclusionBias bundle outcome :=
  have proper : bundle.Proper := ⟨by decide +kernel, by decide +kernel⟩
  ⟨proper, resolve_correct proper rfl rfl⟩

end Resolver

end Loadout
