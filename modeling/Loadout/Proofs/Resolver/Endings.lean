/-
**How a resolution ends, in any world.**

A resolver may start under a cancellation, may have a time limit, and searches while things happen
outside. Whatever these are:

* **`resolution_yields`**: unless it is cancelled for good, a proper request is interrupted, or has
  no solution, or one that a cheapest admissible selection is sorted out to;
* **`resolution_poisoned`**: once it is, no request has an outcome, and none fails for a fault of
  the engine.
-/

import Loadout.Proofs.Engine.Interruptions
import Loadout.Proofs.Resolver.Heedless
import Loadout.Proofs.Resolver.Outcomes

namespace Loadout

namespace Engine

variable {α β : Type} {engine after : Engine} {good : α → Prop}

/-! ### Actions one after the other -/

/-- What is to follow starts where an action ends that succeeds. -/
theorem bind_of_gives {action : Action α} {result : α} (given : Gives action engine result after)
    (next : α → Action β) : (action >>= next) engine = next result after := by
  show ExceptT.bindCont next (action engine).1 (action engine).2 = _
  rw [given]
  rfl

/-- An error ends everything that was to follow. -/
theorem bind_of_error {action : Action α} {error : SolverError}
    (failed : action engine = (.error error, after)) (next : α → Action β) :
    (action >>= next) engine = (.error error, after) := by
  show ExceptT.bindCont next (action engine).1 (action engine).2 = _
  rw [failed]
  rfl

/-! ### Actions that may be interrupted -/

/-- **An action succeeds with a good result or is interrupted.** -/
def Yields (action : Action α) (engine : Engine) (good : α → Prop) : Prop :=
  (∃ result, (action engine).1 = .ok result ∧ good result) ∨ Interrupted (action engine).1

/-- **An action succeeds or is interrupted.** -/
def Lasts (action : Action α) (engine : Engine) : Prop :=
  (∃ result, (action engine).1 = .ok result) ∨ Interrupted (action engine).1

theorem Gives.yields {action : Action α} {result : α} (given : Gives action engine result after)
    (fits : good result) : Yields action engine good :=
  .inl ⟨result, congrArg Prod.fst given, fits⟩

theorem Gives.lasts {action : Action α} {result : α} (given : Gives action engine result after) :
    Lasts action engine :=
  .inl ⟨result, congrArg Prod.fst given⟩

theorem Yields.lasts {action : Action α} (yields : Yields action engine good) :
    Lasts action engine :=
  yields.imp_left fun ⟨result, done, _⟩ => ⟨result, done⟩

/-- What follows an action that lasts decides what is yielded. -/
theorem Lasts.bind {action : Action α} {next : α → Action β} {good : β → Prop}
    (one : Lasts action engine)
    (two : ∀ result after, Gives action engine result after → Yields (next result) after good) :
    Yields (action >>= next) engine good := by
  unfold Lasts at one
  cases done : action engine with
  | mk outcome after =>
    rw [done] at one
    obtain ⟨result, rfl⟩ | rfl | rfl := one
    · unfold Yields
      rw [bind_of_gives done]
      exact two result after done
    · exact .inr (.inl (congrArg Prod.fst (bind_of_error done next)))
    · exact .inr (.inr (congrArg Prod.fst (bind_of_error done next)))

/-- The question whether rules that are up to date can hold together lasts. -/
theorem Workable.lasts (workable : engine.Workable) :
    Lasts (Engine.hasSolution : Engine → Engine.Outcome Bool) engine := by
  have replied := workable.hasSolution
  unfold Lasts
  generalize engine.hasSolution = outcome at replied
  cases replied with
  | interrupted stopped => exact .inr stopped
  | feasible _ _ _ _ _ => exact .inl ⟨true, rfl⟩
  | infeasible _ _ _ => exact .inl ⟨false, rfl⟩

/-- An engine with the rules of a request is workable in every world. -/
theorem workable_draft {config : Config} {table : ChoiceTable} {forest : Forest}
    (tidy : forest.Tidy table 0) (signal : CancelSignal) (events : List OutsideEvent) :
    ((draft config table forest).elsewhere signal events).Workable where
  editable := .inl rfl
  settled := ⟨fun _ _ found => tidy.fresh found, tidy.rulesRooted⟩
  informed := informed_of_open nofun rfl

end Engine

namespace Resolver

open Engine

variable {bias : Int} {request : Request}

/-! ### Requests that are proper -/

/-- What an outcome has to be in any world: a resolution is what a cheapest admissible selection is
sorted out to. -/
def Earned (bias : Int) (request : Request) : Outcome → Prop
  | .solved report => ∃ later value, (tableOf bias request.seats).Extends later ∧
      request.Admissible (selected request.seats value) ∧
      (∀ other, request.Admissible other →
        request.cost bias (selected request.seats value) ≤ request.cost bias other) ∧
      sortOut later (seated 0 request.seats) (later.loadedBy value) = .ok report
  | .infeasible _ => True

/-- Values that satisfy the rules of a request and load least have a cheapest selection. -/
theorem least_of_satisfied (proper : request.Proper) {later : ChoiceTable} {forest : Forest}
    (builds : Forest.Builds (tableOf bias request.seats) later .empty forest
      (RequestMet bias request)) {value : ChoiceId → Bool}
    (least : ∀ other, forest.SatisfiedBy other →
      later.totalWeight (later.loadedBy value) ≤ later.totalWeight (later.loadedBy other))
    {other : List (String × Candidate)} (allowed : request.Admissible other) :
    request.cost bias (selected request.seats value) ≤ request.cost bias other := by
  obtain ⟨value', satisfied, order⟩ := satisfied_of_admissible proper builds allowed
  rw [← Request.cost_perm _ _ order, ← cost_selected proper builds.extends',
    ← cost_selected proper builds.extends']
  exact least value' satisfied

/-- **A proper request has an outcome that is earned, or is interrupted**, in every world without a
hard cancellation. -/
theorem resolution_yields (config : Config) (proper : request.Proper) {signal : CancelSignal}
    (free : signal.isPoisoned = false) (events : List OutsideEvent) :
    Yields (resolution config request) ((create config signal).amid events)
      (Earned config.inclusionBias request) := by
  obtain ⟨later, forest, given, builds⟩ := addRequest_gives config config.inclusionBias proper
  have added : Gives (addRequest config.inclusionBias request) ((create config signal).amid events)
      (seated 0 request.seats) ((draft config later forest).elsewhere signal events) :=
    (registers_addRequest config.inclusionBias request).gives given free events
  have workable : ((draft config later forest).elsewhere signal events).Workable :=
    workable_draft builds.tidy signal events
  refine added.lasts.bind fun registered drafted given' => ?_
  cases added.symm.trans given'
  refine workable.lasts.bind fun feasible checked gives => ?_
  have replied := workable.hasSolution
  rw [show hasSolution _ = (.ok feasible, checked) from gives] at replied
  cases replied with
  | interrupted stopped => obtain stopped | stopped := stopped <;> cases stopped
  | feasible choices forest' ready informed prepared =>
    obtain ⟨value, _, satisfied⟩ := (informed.ready ready).2
    have finds : Lasts (Engine.solution : Engine → Engine.Outcome (List ChoiceId)) checked :=
      (prepared.solution_or_interrupted ready ⟨value, satisfied⟩).1
    have kept := ((conduct_solution informed prepared).kept (.inl ready)).1.trans choices
    rw [if_pos rfl]
    refine finds.bind fun loaded solved found => ?_
    have solution : checked.solution = (.ok loaded, solved) := found
    rw [solution] at kept
    obtain ⟨value, _, listed, satisfied, least⟩ := prepared.exists_least (congrArg Prod.fst found)
    rw [choices] at listed least
    rw [forest'] at satisfied least
    rw [listed] at least
    have admissible := admissible_of_satisfied proper builds satisfied
    obtain ⟨report, sorted, _⟩ := sortOut_spec builds.extends' admissible
    have same : sortOut solved.choices (seated 0 request.seats) loaded = .ok report := by
      rw [kept, listed]
      exact sorted
    refine (gives_get solved).lasts.bind fun engine last reads => ?_
    cases reads
    rw [same]
    exact (gives_pure (Outcome.solved report) solved).yields
      ⟨later, value, builds.extends', admissible,
        fun _ => least_of_satisfied proper builds least, sorted⟩
  | infeasible workable' _ _ =>
    have explains : Lasts (Engine.diagnose config.maxReportedErrors : Engine → Engine.Outcome _)
        checked := workable'.diagnose config.maxReportedErrors
    rw [if_neg Bool.false_ne_true]
    exact explains.bind fun problems last _ =>
      (gives_pure (Outcome.infeasible problems) last).yields trivial

/-- **A proper request has an outcome or is interrupted**, whatever happens outside. -/
theorem resolution_amid (config : Config) (proper : request.Proper) (events : List OutsideEvent) :
    Lasts (resolution config request) ((create config .clear).amid events) :=
  (resolution_yields config proper rfl events).lasts

/-! ### Hard cancellation -/

/-- **Once everything is refused, no request has an outcome**, and none fails for a fault of the
engine. -/
theorem resolution_poisoned (config : Config) (request : Request) {engine : Engine}
    (poisoned : engine.signal.isPoisoned = true) :
    ∃ error, (resolution config request engine).1 = .error error ∧
      ∀ fault, error ≠ .internal fault := by
  have registers := registers_addRequest config.inclusionBias request
  cases done : addRequest config.inclusionBias request engine with
  | mk result after =>
    cases result with
    | error error =>
      refine ⟨error, congrArg Prod.fst (bind_of_error done _), fun fault same => ?_⟩
      exact registers.not_internal engine fault ((congrArg Prod.fst done).trans (same ▸ rfl))
    | ok registered =>
      have kept : after.signal.isPoisoned = true := by
        have same := registers.signal_eq engine
        rw [done] at same
        rw [same, poisoned]
      have refused : (Engine.hasSolution : Engine → Engine.Outcome Bool) after =
          (.error .cancelled, after) := hasSolution_of_poisoned kept
      refine ⟨.cancelled, ?_, nofun⟩
      unfold resolution
      rw [bind_of_gives done]
      exact congrArg Prod.fst (bind_of_error refused _)

end Resolver

end Loadout
