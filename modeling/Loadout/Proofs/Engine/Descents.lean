/-
**The descent to the cheapest assignment.**

An optimizer finds the first assignment that meets its demands, then the first one of lower cost,
and so on until there is none. So its way down is a `Descent`, fixed by the demands, the objective
and the preferred values alone: each stage has one stage below it at most.

* `First.unique`, `First.agree`: the first assignment of a kind is one, and two kinds that look
  alike on the variables up to a number have first assignments that do;
* `lockstep`: two descents whose stages look alike end in stages that look alike;
* `Descent.last_unique`: a descent has one last stage;
* `Descent.Similar.ends_agree`: descents that differ in nothing but the variables beyond a number
  end in assignments that agree up to it;
* `follows_improve`: noting an assignment is one step down, whatever the solver has learned before;
* **`Loops.follows`**: whatever interrupts the searches, they stay on the way down, and what they
  find is its last stage;
* `build_follows`: an optimizer that is built is at the beginning of its way down.
-/

import Loadout.Proofs.Engine.Optima
import Loadout.Proofs.Search.Extents
import Mathlib.Logic.Relation

namespace Loadout

/-! ### The first assignment of a kind -/

/-- **The values of the first assignment of a kind**, in the order that compares the variables one
by one and prefers some values. -/
structure First (preferred : Assignment) (count : Nat) (kind : Assignment → Prop)
    (model : Array Bool) : Prop where
  size : model.size = count + 1
  void : valuation model 0 = false
  among : kind (valuation model)
  first : ∀ assignment, kind assignment →
    AgreeUpTo count (valuation model) assignment ∨
      Leads preferred count (valuation model) assignment

variable {preferred : Assignment} {count count' : Nat} {kind kind' : Assignment → Prop}
  {model model' : Array Bool}

/-- There is one first assignment. -/
theorem First.unique (one : First preferred count kind model)
    (two : First preferred count kind model') : model = model' := by
  have agree := Solver.agree_of_leads (one.first _ two.among) (two.first _ one.among)
  rw [Nat.min_self] at agree
  exact Solver.model_ext ⟨one.size, one.void⟩ ⟨two.size, two.void⟩ agree

theorem AgreeUpTo.symm {first second : Assignment} (agree : AgreeUpTo count first second) :
    AgreeUpTo count second first :=
  fun atom positive within => (agree atom positive within).symm

theorem AgreeUpTo.trans {first second third : Assignment} (one : AgreeUpTo count first second)
    (two : AgreeUpTo count second third) : AgreeUpTo count first third :=
  fun atom positive within => (one atom positive within).trans (two atom positive within)

theorem AgreeUpTo.mono {first second : Assignment} {fewer : Nat}
    (agree : AgreeUpTo count first second) (within : fewer ≤ count) :
    AgreeUpTo fewer first second :=
  fun atom positive low => agree atom positive (Nat.le_trans low within)

/-- What comes first on all variables comes first on fewer of them, also before what agrees with the
later one there. -/
theorem leads_upTo {first second third : Assignment} {fewer : Nat} (within : fewer ≤ count)
    (leads : AgreeUpTo count first second ∨ Leads preferred count first second)
    (agree : AgreeUpTo fewer second third) :
    AgreeUpTo fewer first third ∨ Leads preferred fewer first third := by
  rcases leads with same | ⟨atom, positive, _, before, good, bad⟩
  · exact Or.inl ((same.mono within).trans agree)
  · by_cases low : atom ≤ fewer
    · refine Or.inr ⟨atom, positive, low, ?_, good, ?_⟩
      · exact before.trans (agree.mono (by omega))
      · rw [← agree atom positive low]
        exact bad
    · refine Or.inl ((before.mono ?_).trans agree)
      omega

/-- Each assignment of one kind agrees on the variables up to a number with one of another kind. -/
def Shadows (fewer : Nat) (kind kind' : Assignment → Prop) : Prop :=
  ∀ assignment, kind assignment → ∃ other, kind' other ∧ AgreeUpTo fewer assignment other

/-- **First assignments of kinds that look alike look alike.** -/
theorem First.agree {fewer : Nat} (one : First preferred count kind model)
    (two : First preferred count' kind' model') (within : fewer ≤ count) (within' : fewer ≤ count')
    (forth : Shadows fewer kind kind') (back : Shadows fewer kind' kind) :
    AgreeUpTo fewer (valuation model) (valuation model') := by
  obtain ⟨other, like, same⟩ := back _ two.among
  obtain ⟨other', like', same'⟩ := forth _ one.among
  have agree := Solver.agree_of_leads
    (leads_upTo within (one.first other like) same.symm)
    (leads_upTo within' (two.first other' like') same'.symm)
  rw [Nat.min_self] at agree
  exact agree

/-! ### Ways down -/

/-- **Two systems in lockstep**: when their states look alike, they halt together, and look alike
after one step of each, then the states in which they halt look alike. -/
theorem lockstep {α β : Type} {step : α → α → Prop} {step' : β → β → Prop} {halted : α → Prop}
    {halted' : β → Prop} {alike : α → β → Prop}
    (halts : ∀ state state', alike state state' → (halted state ↔ halted' state'))
    (goes : ∀ state next, step state next → ¬halted state)
    (goes' : ∀ state next, step' state next → ¬halted' state)
    (moves : ∀ state state' next next', alike state state' → step state next →
      step' state' next' → alike next next')
    {start last : α} {start' last' : β} (way : Relation.ReflTransGen step start last)
    (way' : Relation.ReflTransGen step' start' last') (ends : halted last) (ends' : halted' last')
    (similar : alike start start') : alike last last' := by
  induction way using Relation.ReflTransGen.head_induction_on generalizing start' with
  | refl =>
    rcases way'.cases_head with same | ⟨next', first', _⟩
    · rw [← same]
      exact similar
    · exact absurd ((halts _ _ similar).mp ends) (goes' _ _ first')
  | head first _ ih =>
    rcases way'.cases_head with same | ⟨next', first', rest'⟩
    · rw [← same] at ends'
      exact absurd ((halts _ _ similar).mpr ends') (goes _ _ first)
    · exact ih rest' (moves _ _ _ _ similar first first')

/-- **What fixes the way down to the cheapest assignment.** -/
structure Descent where
  demands : List Demand
  objective : List (Int × Literal)
  preferred : Assignment

/-- A stage of the way down: the best assignment so far, and how many variables are in use. -/
structure Stage where
  best : Option (Array Bool)
  count : Nat

namespace Descent

variable {descent : Descent} {stage next : Stage}

/-- What an assignment costs. -/
def cost (descent : Descent) (assignment : Assignment) : Int :=
  signedWeight assignment descent.objective

/-- An assignment meets the demands and costs less than the best one so far. -/
def Cheaper (descent : Descent) (best : Option (Array Bool)) (assignment : Assignment) : Prop :=
  Meets descent.demands assignment ∧
    ∀ model, best = some model → descent.cost assignment < descent.cost (valuation model)

/-- One step down: the first cheaper assignment is the best one from then on, and the bound on the
cost takes its variables into use. -/
inductive Step (descent : Descent) : Stage → Stage → Prop
  | down {stage : Stage} {model : Array Bool} :
    First descent.preferred stage.count (descent.Cheaper stage.best) model →
      Step descent stage ⟨some model, max stage.count
        (AtMost.normalize ⟨descent.objective, descent.cost (valuation model) - 1⟩).extent⟩

/-- There is no cheaper assignment than the best one. -/
def Final (descent : Descent) (stage : Stage) : Prop :=
  ∀ assignment, ¬descent.Cheaper stage.best assignment

/-- One stage is on the way down from another. -/
def Leads (descent : Descent) : Stage → Stage → Prop :=
  Relation.ReflTransGen descent.Step

/-- A stage with another one below it is not final. -/
theorem Step.not_final (step : descent.Step stage next) : ¬descent.Final stage := by
  cases step with
  | down first => exact fun final => final _ first.among

/-- **A way down has one last stage.** -/
theorem last_unique {last last' : Stage} (way : descent.Leads stage last)
    (way' : descent.Leads stage last') (final : descent.Final last) (final' : descent.Final last') :
    last = last' := by
  refine @lockstep Stage Stage descent.Step descent.Step descent.Final descent.Final Eq ?_
    (fun _ _ => Step.not_final) (fun _ _ => Step.not_final) ?_ _ _ _ _ way way' final final' rfl
  · rintro state _ rfl
    exact Iff.rfl
  · rintro state _ next next' rfl step step'
    cases step with
    | down first => cases step' with
      | down first' => rw [first.unique first']

/-- What a search comes to is the last stage of the way down. -/
def Ends (descent : Descent) (start : Stage) : Optimum → Prop
  | .found model => ∃ count, descent.Leads start ⟨some model, count⟩ ∧
      descent.Final ⟨some model, count⟩
  | .infeasible => ∃ count, descent.Leads start ⟨none, count⟩ ∧ descent.Final ⟨none, count⟩
  | .stopped => True

/-- **Searches on the same way down come to the same**, unless they are stopped. -/
theorem Ends.unique {result result' : Optimum} (ends : descent.Ends stage result)
    (ends' : descent.Ends stage result') (goes : result ≠ .stopped) (goes' : result' ≠ .stopped) :
    result = result' := by
  have same : ∀ {best best'}, (∃ count, descent.Leads stage ⟨best, count⟩ ∧
      descent.Final ⟨best, count⟩) → (∃ count, descent.Leads stage ⟨best', count⟩ ∧
      descent.Final ⟨best', count⟩) → best = best' := by
    rintro best best' ⟨count, way, final⟩ ⟨count', way', final'⟩
    exact congrArg Stage.best (last_unique way way' final final')
  cases result with
  | stopped => exact absurd rfl goes
  | found model =>
    cases result' with
    | stopped => exact absurd rfl goes'
    | found model' => rw [Option.some.inj (same ends ends')]
    | infeasible => cases same ends ends'
  | infeasible =>
    cases result' with
    | stopped => exact absurd rfl goes'
    | found model' => cases same ends ends'
    | infeasible => rfl

/-- What is found meets the demands, and nothing that does costs less. -/
theorem Ends.least {start : Nat} {model : Array Bool}
    (ends : descent.Ends ⟨none, start⟩ (.found model)) :
    Meets descent.demands (valuation model) ∧ ∀ assignment, Meets descent.demands assignment →
      descent.cost (valuation model) ≤ descent.cost assignment := by
  obtain ⟨count, way, final⟩ := ends
  refine ⟨?_, fun assignment meets => Int.not_lt.mp fun below => ?_⟩
  · rcases way.cases_tail with same | ⟨above, _, step⟩
    · cases same
    · cases step with
      | down first => exact first.among.1
  · refine final assignment ⟨meets, fun other found => ?_⟩
    cases found
    exact below

/-! ### Ways down that look alike -/

/-- There is no best assignment yet in either of two searches, or those that they have agree on the
variables up to a number. -/
def BestsAgree (fewer : Nat) : Option (Array Bool) → Option (Array Bool) → Prop :=
  Option.Rel fun model model' => AgreeUpTo fewer (valuation model) (valuation model')

theorem BestsAgree.symm {fewer : Nat} {best best' : Option (Array Bool)}
    (agree : BestsAgree fewer best best') : BestsAgree fewer best' best := by
  cases agree with
  | none => exact .none
  | some same => exact .some same.symm

/-- **Two descents that differ in nothing but the variables beyond a number.** -/
structure Similar (fewer : Nat) (descent descent' : Descent) : Prop where
  preferred : descent.preferred = descent'.preferred
  cost : ∀ assignment other, AgreeUpTo fewer assignment other →
    descent.cost assignment = descent'.cost other
  forth : Shadows fewer (Meets descent.demands) (Meets descent'.demands)
  back : Shadows fewer (Meets descent'.demands) (Meets descent.demands)

section Similarity

variable {fewer : Nat} {descent' : Descent}

theorem Similar.symm (similar : Similar fewer descent descent') :
    Similar fewer descent' descent where
  preferred := similar.preferred.symm
  cost assignment other agree := (similar.cost other assignment agree.symm).symm
  forth := similar.back
  back := similar.forth

/-- What is cheaper in one descent agrees with something that is cheaper in the other. -/
theorem Similar.cheaper (similar : Similar fewer descent descent')
    {best best' : Option (Array Bool)} (bests : BestsAgree fewer best best') :
    Shadows fewer (descent.Cheaper best) (descent'.Cheaper best') := by
  rintro assignment ⟨meets, below⟩
  obtain ⟨other, meets', agree⟩ := similar.forth assignment meets
  refine ⟨other, ⟨meets', fun model' found => ?_⟩, agree⟩
  cases bests with
  | none => cases found
  | some same =>
    cases found
    rw [← similar.cost _ _ agree, ← similar.cost _ _ same]
    exact below _ rfl

/-- **Similar descents end in assignments that agree.** -/
theorem Similar.ends_agree (similar : Similar fewer descent descent') {start start' : Stage}
    {model model' : Array Bool} (ends : descent.Ends start (.found model))
    (ends' : descent'.Ends start' (.found model'))
    (bests : BestsAgree fewer start.best start'.best) (within : fewer ≤ start.count)
    (within' : fewer ≤ start'.count) :
    AgreeUpTo fewer (valuation model) (valuation model') := by
  obtain ⟨count, way, final⟩ := ends
  obtain ⟨count', way', final'⟩ := ends'
  have alike := @lockstep Stage Stage descent.Step descent'.Step descent.Final descent'.Final
    (fun stage stage' => BestsAgree fewer stage.best stage'.best ∧
      fewer ≤ stage.count ∧ fewer ≤ stage'.count) ?_
    (fun _ _ => Step.not_final) (fun _ _ => Step.not_final) ?_ _ _ _ _ way way' final final'
    ⟨bests, within, within'⟩
  · cases alike.1 with
    | some same => exact same
  · rintro stage stage' ⟨agree, _⟩
    constructor
    · intro last other cheaper
      obtain ⟨assignment, cheaper', _⟩ := similar.symm.cheaper agree.symm other cheaper
      exact last assignment cheaper'
    · intro last assignment cheaper
      obtain ⟨other, cheaper', _⟩ := similar.cheaper agree assignment cheaper
      exact last other cheaper'
  · rintro stage stage' next next' ⟨agree, low, low'⟩ step step'
    cases step with
    | down first => cases step' with
      | down first' =>
        rw [← similar.preferred] at first'
        exact ⟨.some (first.agree first' low low' (similar.cheaper agree)
          (similar.symm.cheaper agree.symm)), Nat.le_trans low (Nat.le_max_left _ _),
          Nat.le_trans low' (Nat.le_max_left _ _)⟩

end Similarity

end Descent

namespace Optimizer

variable {descent : Descent} {start : Stage} {optimizer : Optimizer}

/-- How far down an optimizer has come. -/
def stage (optimizer : Optimizer) : Stage :=
  ⟨optimizer.best.map Prod.fst, optimizer.solver.atomCount⟩

/-- **An optimizer is on the way down from a stage.** -/
structure Follows (descent : Descent) (start : Stage) (optimizer : Optimizer) : Prop where
  same : optimizer.objective = descent.objective
  way : descent.Leads start optimizer.stage
  cost : ∀ model cost, optimizer.best = some (model, cost) → cost = descent.cost (valuation model)
  /-- Just what is cheaper than the best assignment is asked of the solver. -/
  asks : ∃ asked, optimizer.solver.Faithful asked descent.preferred ∧
    (optimizer.proven = false → ∀ assignment,
      Meets asked assignment ↔ descent.Cheaper (optimizer.best.map Prod.fst) assignment)
  final : optimizer.proven = true → optimizer.best ≠ none ∧ descent.Final optimizer.stage

/-- The way down from the beginning. -/
theorem follows_start {solver : Solver}
    (faithful : solver.Faithful descent.demands descent.preferred) :
    Follows descent ⟨none, solver.atomCount⟩ ⟨solver, descent.objective, none, false⟩ where
  same := rfl
  way := Relation.ReflTransGen.refl
  cost := nofun
  asks := ⟨descent.demands, faithful, fun _ _ => (and_iff_left nofun).symm⟩
  final := nofun

/-- Searching changes nothing but the solver, which keeps its demands and its variables. -/
theorem Follows.withSolver (follows : Follows descent start optimizer) {solver : Solver}
    {asked : List Demand} (faithful : solver.Faithful asked descent.preferred)
    (asks : optimizer.proven = false → ∀ assignment,
      Meets asked assignment ↔ descent.Cheaper (optimizer.best.map Prod.fst) assignment)
    (count : solver.atomCount = optimizer.solver.atomCount) :
    Follows descent start { optimizer with solver } := by
  have stage : ({ optimizer with solver } : Optimizer).stage = optimizer.stage := by
    unfold Optimizer.stage
    dsimp only
    rw [count]
  refine ⟨follows.same, ?_, follows.cost, ⟨asked, faithful, asks⟩, ?_⟩
  · rw [stage]
    exact follows.way
  · rw [stage]
    exact follows.final

/-- What is cheaper than a further assignment is what was asked for, with one more bound. -/
theorem cheaper_iff {best : Option (Array Bool)} {model : Array Bool} {asked : List Demand}
    (asks : ∀ assignment, Meets asked assignment ↔ descent.Cheaper best assignment)
    (cheaper : descent.Cheaper best (valuation model)) (assignment : Assignment) :
    Meets (asked ++ [.atMost ⟨descent.objective, descent.cost (valuation model) - 1⟩]) assignment ↔
      descent.Cheaper (some model) assignment := by
  have bound : Demand.holds assignment
      (.atMost ⟨descent.objective, descent.cost (valuation model) - 1⟩) = true ↔
      descent.cost assignment ≤ descent.cost (valuation model) - 1 := decide_eq_true_iff
  rw [meets_append, asks, bound]
  constructor
  · rintro ⟨⟨meets, _⟩, below⟩
    refine ⟨meets, fun other found => ?_⟩
    cases found
    omega
  · rintro ⟨meets, below⟩
    have lower := below model rfl
    refine ⟨⟨meets, fun other found => ?_⟩, by omega⟩
    have upper := cheaper.2 other found
    omega

/-- **Noting the first cheaper assignment is one step down.** -/
theorem follows_improve (proper : ∀ term ∈ descent.objective, term.2.isVoid = false)
    (follows : Follows descent start optimizer) (unproven : optimizer.proven = false)
    {model : Array Bool}
    (first : First descent.preferred optimizer.solver.atomCount
      (descent.Cheaper (optimizer.best.map Prod.fst)) model) :
    Follows descent start (optimizer.improve model) := by
  obtain ⟨same, way, _, ⟨asked, faithful, asks⟩, _⟩ := follows
  have value : cost descent.objective model = descent.cost (valuation model) := cost_eq proper model
  have step : descent.Step optimizer.stage _ := .down first
  have way' := way.tail step
  have news : AtMost.holds (valuation model)
      ⟨descent.objective, descent.cost (valuation model) - 1⟩ = false := by
    refine decide_eq_false fun below => ?_
    have lower : descent.cost (valuation model) ≤ descent.cost (valuation model) - 1 := below
    omega
  have count := Solver.atomCount_addAtMost faithful ((asks unproven _).mpr first.among) news
  obtain ⟨faithful', refused⟩ := Solver.addAtMost_spec faithful
    ⟨descent.objective, descent.cost (valuation model) - 1⟩
  have asks' := cheaper_iff (asks unproven) first.among
  unfold improve
  rw [same, value]
  dsimp only
  by_cases nothing : descent.objective.isEmpty = true
  · rw [if_pos nothing]
    have free : ∀ assignment, descent.cost assignment = 0 := by
      intro assignment
      unfold Descent.cost
      rw [List.isEmpty_iff.mp nothing]
      rfl
    have narrow : (AtMost.normalize
        ⟨descent.objective, descent.cost (valuation model) - 1⟩).extent = 0 := by
      rw [free, List.isEmpty_iff.mp nothing]
      rfl
    rw [narrow, Nat.max_zero] at way'
    refine ⟨rfl, way', ?_, ⟨asked, faithful, nofun⟩, fun _ => ⟨nofun, ?_⟩⟩
    · rintro other cost equal
      cases equal
      rfl
    · rintro assignment ⟨_, below⟩
      have lower := below model rfl
      rw [free, free] at lower
      exact absurd lower (Int.lt_irrefl 0)
  · rw [if_neg nothing]
    have stage : (⟨some model, (optimizer.solver.addAtMost
        ⟨descent.objective, descent.cost (valuation model) - 1⟩).2.atomCount⟩ : Stage) =
        ⟨some model, max optimizer.stage.count (AtMost.normalize
          ⟨descent.objective, descent.cost (valuation model) - 1⟩).extent⟩ :=
      congrArg (Stage.mk (some model)) count
    rw [← stage] at way'
    refine ⟨rfl, way', ?_, ⟨_, faithful', fun _ => asks'⟩, fun proven => ⟨nofun, ?_⟩⟩
    · rintro other cost equal
      cases equal
      rfl
    · rw [Bool.not_eq_true'] at proven
      intro assignment cheaper
      exact faithful'.contradictory (refused proven) assignment ((asks' assignment).mpr cheaper)

/-- What a finished search has found is the last stage of the way down. -/
theorem Follows.result (follows : Follows descent start optimizer)
    (proven : optimizer.proven = true) : descent.Ends start optimizer.result := by
  obtain ⟨found, final⟩ := follows.final proven
  obtain ⟨⟨model, cost⟩, best⟩ := Option.ne_none_iff_exists'.mp found
  have way := follows.way
  have stage : optimizer.stage = ⟨some model, optimizer.solver.atomCount⟩ := by
    unfold Optimizer.stage
    rw [best]
    rfl
  rw [stage] at way final
  unfold Optimizer.result
  rw [best]
  exact ⟨_, way, final⟩

section Search

variable {condition : Type} [Interruption condition] {stopping stopping' : condition}
  {solver : Solver}

/-- A search does not leave its stage, and answers for what is cheaper. -/
theorem Follows.solve (follows : Follows descent start optimizer)
    (unproven : optimizer.proven = false) {answer : Answer}
    (solved : optimizer.solver.solve [] stopping = (answer, stopping', solver)) :
    Follows descent start { optimizer with solver } ∧
      ∃ asked, Solver.AnswersDemands asked descent.preferred [] solver.atomCount answer ∧
        ∀ assignment, Meets asked assignment ↔
          descent.Cheaper (optimizer.best.map Prod.fst) assignment := by
  obtain ⟨asked, faithful, asks⟩ := follows.asks
  obtain ⟨faithful', answers⟩ := Solver.solve_spec faithful [] nofun stopping
  have count := Solver.atomCount_solve faithful stopping
  rw [solved] at faithful' answers count
  exact ⟨follows.withSolver faithful' asks count, asked, answers, asks unproven⟩

/-- The next assignment found is the next stage. -/
theorem Follows.improved (proper : ∀ term ∈ descent.objective, term.2.isVoid = false)
    (follows : Follows descent start optimizer) (unproven : optimizer.proven = false)
    {model : Array Bool}
    (solved : optimizer.solver.solve [] stopping = (.satisfiable model, stopping', solver)) :
    Follows descent start ({ optimizer with solver }.improve model) := by
  obtain ⟨follows', _, ⟨shape, meets, _, first⟩, cheaper⟩ := follows.solve unproven solved
  refine follows_improve proper follows' unproven
    ⟨shape.1, shape.2, (cheaper _).mp meets, fun assignment found => ?_⟩
  exact first assignment ((cheaper assignment).mpr found) fun literal inside =>
    absurd inside List.not_mem_nil

/-- Without a cheaper assignment the stage is the last one. -/
theorem Follows.final_of_unsatisfiable (follows : Follows descent start optimizer)
    (unproven : optimizer.proven = false) {core : List Literal}
    (solved : optimizer.solver.solve [] stopping = (.unsatisfiable core, stopping', solver)) :
    Follows descent start { optimizer with solver } ∧
      descent.Final ({ optimizer with solver } : Optimizer).stage := by
  obtain ⟨follows', _, answers, cheaper⟩ := follows.solve unproven solved
  exact ⟨follows', fun assignment found =>
    contradictory_of_core answers assignment ((cheaper assignment).mpr found)⟩

/-- **The loop stays on the way down**, and what it comes to is its last stage. -/
theorem Loops.follows (proper : ∀ term ∈ descent.objective, term.2.isVoid = false)
    {outcome : Optimum × condition × Optimizer} (loops : Loops stopping optimizer outcome)
    (follows : Follows descent start optimizer) :
    Follows descent start outcome.2.2 ∧ descent.Ends start outcome.1 := by
  induction loops with
  | proven proven => exact ⟨follows, follows.result proven⟩
  | improved unproven solved _ ih => exact ih (follows.improved proper unproven solved)
  | settled unproven solved found _ ih =>
    obtain ⟨follows', final⟩ := follows.final_of_unsatisfiable unproven solved
    obtain ⟨asked, faithful, _⟩ := follows'.asks
    refine ih ⟨follows'.same, follows'.way, follows'.cost, ⟨asked, faithful, nofun⟩,
      fun _ => ⟨fun none => ?_, final⟩⟩
    rw [Option.isNone_iff_eq_none.mpr none] at found
    cases found
  | @refuted _ _ optimizer solver _ unproven solved none =>
    obtain ⟨follows', final⟩ := follows.final_of_unsatisfiable unproven solved
    have top : ({ optimizer with solver } : Optimizer).stage = ⟨Option.none, solver.atomCount⟩ := by
      unfold Optimizer.stage
      rw [Option.isNone_iff_eq_none.mp none]
      rfl
    have way := follows'.way
    rw [top] at way final
    exact ⟨follows', _, way, final⟩
  | stopped unproven solved => exact ⟨(follows.solve unproven solved).1, trivial⟩

end Search

/-! ### The beginning -/

/-- **An optimizer that is built is at the beginning of its way down**, on which the demands are
what the rules say. -/
theorem build_follows {numbering : Numbering} {objective : List (Int × Literal)}
    (proper : ∀ term ∈ objective, term.2.isVoid = false)
    {rules : List (RuleId × List Cardinality)}
    (built : build numbering rules objective = .ok optimizer) :
    ∃ demands, optimizer.Sound demands objective ∧
      Follows ⟨demands, objective, leaning objective⟩ ⟨none, optimizer.solver.atomCount⟩
        optimizer ∧
      numbering.count ≤ optimizer.solver.atomCount ∧
      ∀ entries, numbering.Covers entries → Expresses numbering demands rules := by
  obtain ⟨demands, solver, rfl, faithful, wide, express⟩ := build_told proper built
  exact ⟨demands, sound_start proper faithful,
    @follows_start ⟨demands, objective, leaning objective⟩ _ faithful, wide, express⟩

end Optimizer

end Loadout
