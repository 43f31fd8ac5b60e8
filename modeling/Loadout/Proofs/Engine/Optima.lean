/-
**The search for the cheapest assignment finds one.**

Below every assignment found, the optimizer demands a lower cost (`bounded`). So no cheaper
assignment is ever shut out but the one that is kept, which is what `Optimizer.Tracks` says:

* `tracks_improve`: noting an assignment keeps the invariant;
* `Loops`: the loop of searches, without a limit to their number; **`loops_optimize`**: it ends, and
  within the limit that is set;
* **`optimize_spec`**: what is found is the cheapest assignment that meets the demands, no matter
  how often the search was interrupted before;
* `build_told`: an optimizer is told what the cardinalities of the rules say.
-/

import Loadout.Engine.Optimizer
import Loadout.Proofs.Engine.Encoding
import Loadout.Proofs.Search.Termination

namespace Loadout

theorem meets_append_list {first second : List Demand} {assignment : Assignment} :
    Meets (first ++ second) assignment ↔ Meets first assignment ∧ Meets second assignment :=
  List.forall_mem_append

namespace Optimizer

variable {demands : List Demand} {objective : List (Int × Literal)} {bounds : List Int}
  {optimizer : Optimizer} {assignment : Assignment}

/-! ### Costs -/

/-- The cost of a model is the weight of its true literals. -/
theorem cost_eq (proper : ∀ term ∈ objective, term.2.isVoid = false) (model : Array Bool) :
    cost objective model = signedWeight (valuation model) objective := by
  have same : (objective.filter fun term =>
      term.2.holds fun atom => model[atom]?.getD false) =
      objective.filter fun term => !term.2.isVoid && term.2.holds (valuation model) := by
    refine List.filter_congr fun term inside => ?_
    rw [proper term inside]
    rfl
  unfold cost signedWeight
  rw [same]

/-- What is demanded of the solver: the demands of the rules, and bounds on the cost. -/
def bounded (demands : List Demand) (objective : List (Int × Literal)) (bounds : List Int) :
    List Demand :=
  demands ++ bounds.map fun bound => .atMost ⟨objective, bound⟩

theorem meets_bounded :
    Meets (bounded demands objective bounds) assignment ↔
      Meets demands assignment ∧ ∀ bound ∈ bounds, signedWeight assignment objective ≤ bound := by
  unfold bounded
  rw [meets_append_list]
  refine and_congr_right fun _ => ?_
  unfold Meets
  rw [List.forall_mem_map]
  exact forall₂_congr fun bound _ => decide_eq_true_iff

/-- Adding a bound to what is demanded. -/
theorem bounded_append (bound : Int) :
    bounded demands objective bounds ++ [.atMost ⟨objective, bound⟩] =
      bounded demands objective (bounds ++ [bound]) := by
  unfold bounded
  rw [List.map_append, List.append_assoc]
  rfl

/-! ### The invariant -/

/-- **The optimizer has lost no assignment that is cheaper than the best one.** -/
structure Tracks (demands : List Demand) (objective : List (Int × Literal)) (bounds : List Int)
    (optimizer : Optimizer) : Prop where
  same : optimizer.objective = objective
  proper : ∀ term ∈ objective, term.2.isVoid = false
  faithful : ∃ phases, optimizer.solver.Faithful (bounded demands objective bounds) phases
  /-- Nothing is demanded beyond the rules before an assignment is found. -/
  fresh : optimizer.best = none → bounds = [] ∧ optimizer.proven = false
  best : ∀ model cost, optimizer.best = some (model, cost) →
    Meets demands (valuation model) ∧ cost = signedWeight (valuation model) objective ∧
      ∀ bound ∈ bounds, cost - 1 ≤ bound
  /-- A lower cost than the best is demanded as long as the search goes on. -/
  tight : optimizer.proven = false → ∀ model cost, optimizer.best = some (model, cost) →
    cost - 1 ∈ bounds
  least : optimizer.proven = true → ∀ model cost, optimizer.best = some (model, cost) →
    ∀ assignment, Meets demands assignment → cost ≤ signedWeight assignment objective

/-- The optimizer searches for the cheapest assignment that meets some demands. -/
def Sound (demands : List Demand) (objective : List (Int × Literal)) (optimizer : Optimizer) :
    Prop :=
  ∃ bounds, Tracks demands objective bounds optimizer

/-- An assignment is cheapest among those that meet some demands. -/
def Cheapest (demands : List Demand) (objective : List (Int × Literal)) (model : Array Bool) :
    Prop :=
  Meets demands (valuation model) ∧ ∀ assignment, Meets demands assignment →
    signedWeight (valuation model) objective ≤ signedWeight assignment objective

theorem Tracks.withSolver (tracks : Tracks demands objective bounds optimizer) {solver : Solver}
    {phases : Assignment} (faithful : solver.Faithful (bounded demands objective bounds) phases) :
    Tracks demands objective bounds { optimizer with solver } :=
  ⟨tracks.same, tracks.proper, ⟨phases, faithful⟩, tracks.fresh, tracks.best, tracks.tight,
    tracks.least⟩

/-- Every assignment that the bounds shut out costs at least as much as the best one. -/
theorem Tracks.least_of_contradictory (tracks : Tracks demands objective bounds optimizer)
    {model : Array Bool} {cost : Int} (best : optimizer.best = some (model, cost))
    (shut : ∀ assignment, ¬Meets (bounded demands objective bounds) assignment) :
    ∀ assignment, Meets demands assignment → cost ≤ signedWeight assignment objective := by
  intro assignment meets
  refine Int.not_lt.mp fun cheaper => shut assignment (meets_bounded.mpr ⟨meets, ?_⟩)
  intro bound inside
  have above := (tracks.best model cost best).2.2 bound inside
  omega

/-- **Noting a further assignment keeps the invariant**, with one more bound unless there is nothing
to minimize. -/
theorem tracks_improve (tracks : Tracks demands objective bounds optimizer) {model : Array Bool}
    (meets : Meets (bounded demands objective bounds) (valuation model)) :
    (optimizer.improve model).Sound demands objective := by
  obtain ⟨same, proper, ⟨phases, faithful⟩, fresh, best, tight, least⟩ := tracks
  have value := cost_eq proper model
  obtain ⟨met, within⟩ := meets_bounded.mp meets
  unfold improve
  rw [same, value]
  dsimp only
  by_cases nothing : objective.isEmpty = true
  · rw [if_pos nothing]
    have empty : objective = [] := List.isEmpty_iff.mp nothing
    refine ⟨bounds, rfl, proper, ⟨phases, faithful⟩, ?_, ?_, ?_, ?_⟩
    · exact fun none => absurd none (Option.some_ne_none _)
    · rintro other cost equal
      cases equal
      refine ⟨met, rfl, fun bound inside => ?_⟩
      have below := within bound inside
      omega
    · exact fun unproven => absurd unproven Bool.true_eq_false.mp
    · rintro _ other cost equal assignment _
      cases equal
      rw [empty]
      exact Int.le_refl _
  · rw [if_neg nothing]
    obtain ⟨faithful', refused⟩ := Solver.addAtMost_spec faithful
      ⟨objective, signedWeight (valuation model) objective - 1⟩
    rw [bounded_append] at faithful'
    have lowest : ∀ bound ∈ bounds ++ [signedWeight (valuation model) objective - 1],
        signedWeight (valuation model) objective - 1 ≤ bound := by
      intro bound inside
      rcases List.mem_append.mp inside with old | new
      · have below := within bound old
        omega
      · exact Int.le_of_eq (List.mem_singleton.mp new).symm
    refine ⟨bounds ++ [signedWeight (valuation model) objective - 1], rfl, proper,
      ⟨phases, faithful'⟩, ?_, ?_, ?_, ?_⟩
    · exact fun none => absurd none (Option.some_ne_none _)
    · rintro other cost equal
      cases equal
      exact ⟨met, rfl, lowest⟩
    · rintro _ other cost equal
      cases equal
      exact List.mem_append_right _ List.mem_cons_self
    · rintro proven other cost equal assignment meets'
      cases equal
      rw [Bool.not_eq_true'] at proven
      have contradictory := faithful'.contradictory (refused proven) assignment
      refine Int.not_lt.mp fun cheaper => contradictory (meets_bounded.mpr ⟨meets', ?_⟩)
      intro bound inside
      have above := lowest bound inside
      omega

/-! ### Searches -/

/-- What a search comes to, by its result. -/
def OptimumRight (demands : List Demand) (objective : List (Int × Literal)) : Optimum → Prop
  | .found model => Cheapest demands objective model
  | .infeasible => ∀ assignment, ¬Meets demands assignment
  | .stopped => True

/-- The result of a finished search is right. -/
theorem Tracks.result (tracks : Tracks demands objective bounds optimizer)
    (proven : optimizer.proven = true) : OptimumRight demands objective optimizer.result := by
  unfold Optimizer.result
  cases found : optimizer.best with
  | none =>
    have unproven := (tracks.fresh found).2
    rw [proven] at unproven
    cases unproven
  | some pair =>
    obtain ⟨model, cost⟩ := pair
    obtain ⟨meets, equal, _⟩ := tracks.best model cost found
    refine ⟨meets, fun assignment meets' => ?_⟩
    rw [← equal]
    exact tracks.least proven model cost found assignment meets'

/-- Without a lower cost the best assignment is the cheapest. -/
theorem Tracks.prove (tracks : Tracks demands objective bounds optimizer)
    (found : optimizer.best ≠ none)
    (shut : ∀ assignment, ¬Meets (bounded demands objective bounds) assignment) :
    Tracks demands objective bounds { optimizer with proven := true } where
  same := tracks.same
  proper := tracks.proper
  faithful := tracks.faithful
  fresh none := absurd none found
  best := tracks.best
  tight := nofun
  least _ _ _ best := tracks.least_of_contradictory best shut

/-- Without assumptions a core contradicts the demands alone. -/
theorem contradictory_of_core {phases : Assignment} {count : Nat} {core : List Literal}
    (answers : Solver.AnswersDemands demands phases [] count (.unsatisfiable core)) :
    ∀ assignment, ¬Meets demands assignment := by
  intro assignment meets
  obtain ⟨literal, inside, _⟩ := answers.2 assignment meets
  exact absurd (answers.1 literal inside) List.not_mem_nil

/-! ### Further assignments -/

/-- The greatest amount that a weight can have. -/
def spread (objective : List (Int × Literal)) : Nat :=
  (objective.map fun term => term.1.natAbs).sum

theorem signedWeight_within (assignment : Assignment) (objective : List (Int × Literal)) :
    -(spread objective : Int) ≤ signedWeight assignment objective ∧
      signedWeight assignment objective ≤ spread objective := by
  unfold spread
  induction objective with
  | nil => exact ⟨Int.le_refl 0, Int.le_refl 0⟩
  | cons term rest ih =>
    rw [AtMost.signedWeight_cons, List.map_cons, List.sum_cons]
    split <;> omega

/-- How many further assignments can be found: the cost goes down by at least one each time. -/
def remaining (optimizer : Optimizer) : Nat :=
  match optimizer.best with
  | none => 2 * spread optimizer.objective + 1
  | some (_, cost) => (cost + spread optimizer.objective).toNat

/-- Each further assignment leaves fewer. -/
theorem Tracks.remaining_improve (tracks : Tracks demands objective bounds optimizer)
    (unproven : optimizer.proven = false) {model : Array Bool}
    (meets : Meets (bounded demands objective bounds) (valuation model)) :
    (optimizer.improve model).remaining < optimizer.remaining := by
  obtain ⟨_, within⟩ := meets_bounded.mp meets
  obtain ⟨lower, upper⟩ := signedWeight_within (valuation model) objective
  have improved : (optimizer.improve model).best =
        some (model, signedWeight (valuation model) objective) ∧
      (optimizer.improve model).objective = objective := by
    unfold improve
    rw [tracks.same, cost_eq tracks.proper]
    dsimp only
    split <;> exact ⟨rfl, rfl⟩
  unfold remaining
  rw [improved.1, improved.2, tracks.same]
  cases best : optimizer.best with
  | none =>
    dsimp only
    omega
  | some pair =>
    obtain ⟨_, cost⟩ := pair
    have below := within _ (tracks.tight unproven _ cost best)
    dsimp only
    omega

/-! ### One search -/

section Search

variable {condition : Type} [Interruption condition] {stopping stopping' : condition}
  {solver : Solver} {answer : Answer}

/-- A search loses no assignment, and answers for what is demanded. -/
theorem Tracks.solve (tracks : Tracks demands objective bounds optimizer)
    (solved : optimizer.solver.solve [] stopping = (answer, stopping', solver)) :
    Tracks demands objective bounds { optimizer with solver } ∧
      ∃ phases count, Solver.AnswersDemands (bounded demands objective bounds) phases [] count
        answer := by
  obtain ⟨phases, faithful⟩ := tracks.faithful
  obtain ⟨faithful', answers⟩ := Solver.solve_spec faithful [] nofun stopping
  rw [solved] at faithful' answers
  exact ⟨tracks.withSolver faithful', phases, _, answers⟩

theorem Sound.solve (sound : optimizer.Sound demands objective)
    (solved : optimizer.solver.solve [] stopping = (answer, stopping', solver)) :
    ({ optimizer with solver } : Optimizer).Sound demands objective := by
  obtain ⟨bounds, tracks⟩ := sound
  exact ⟨bounds, (tracks.solve solved).1⟩

/-- **A further assignment is noted**, and leaves fewer. -/
theorem Sound.improved (sound : optimizer.Sound demands objective)
    (unproven : optimizer.proven = false) {model : Array Bool}
    (solved : optimizer.solver.solve [] stopping = (.satisfiable model, stopping', solver)) :
    ({ optimizer with solver }.improve model).Sound demands objective ∧
      ({ optimizer with solver }.improve model).remaining < optimizer.remaining := by
  obtain ⟨bounds, tracks⟩ := sound
  obtain ⟨tracks', _, _, answers⟩ := tracks.solve solved
  exact ⟨tracks_improve tracks' answers.2.1, tracks'.remaining_improve unproven answers.2.1⟩

/-- **Without a cheaper assignment the best one is the cheapest.** -/
theorem Sound.settled (sound : optimizer.Sound demands objective) {core : List Literal}
    (solved : optimizer.solver.solve [] stopping = (.unsatisfiable core, stopping', solver))
    (found : optimizer.best.isNone = false) :
    ({ optimizer with solver, proven := true } : Optimizer).Sound demands objective := by
  obtain ⟨bounds, tracks⟩ := sound
  obtain ⟨tracks', _, _, answers⟩ := tracks.solve solved
  refine ⟨bounds, tracks'.prove (fun none => ?_) (contradictory_of_core answers)⟩
  rw [Option.isNone_iff_eq_none.mpr none] at found
  cases found

/-- **Before an assignment is found, nothing but the demands can be contradictory.** -/
theorem Sound.refuted (sound : optimizer.Sound demands objective) {core : List Literal}
    (solved : optimizer.solver.solve [] stopping = (.unsatisfiable core, stopping', solver))
    (none : optimizer.best.isNone = true) : ∀ assignment, ¬Meets demands assignment := by
  obtain ⟨bounds, tracks⟩ := sound
  obtain ⟨_, _, _, answers⟩ := tracks.solve solved
  obtain ⟨rfl, -⟩ := tracks.fresh (Option.isNone_iff_eq_none.mp none)
  intro assignment meets
  exact contradictory_of_core answers assignment (meets_bounded.mpr ⟨meets, fun bound inside =>
    absurd inside List.not_mem_nil⟩)

/-- A search that is not interrupted answers. -/
theorem Sound.calm {quiet : condition → Prop} (calm : Interruption.Calm quiet)
    (sound : optimizer.Sound demands objective)
    (solved : optimizer.solver.solve [] stopping = (answer, stopping', solver))
    (calmly : quiet stopping) : answer ≠ .unknown ∧ quiet stopping' := by
  obtain ⟨_, tracks⟩ := sound
  obtain ⟨phases, faithful⟩ := tracks.faithful
  have answered := Solver.solve_answer calm faithful [] nofun stopping calmly
  rwa [solved] at answered

end Search

/-! ### The loop of searches -/

variable {condition : Type} [Interruption condition]

/-- **The loop of searches comes to an outcome.** No limit is set to the number of searches. -/
inductive Loops : condition → Optimizer → Optimum × condition × Optimizer → Prop
  /-- The best assignment is known to be the cheapest. -/
  | proven {stopping : condition} {optimizer : Optimizer} : optimizer.proven = true →
    Loops stopping optimizer (optimizer.result, stopping, optimizer)
  /-- A cheaper assignment is found. -/
  | improved {stopping stopping' : condition} {optimizer : Optimizer} {solver : Solver}
    {model : Array Bool} {outcome : Optimum × condition × Optimizer} :
    optimizer.proven = false →
    optimizer.solver.solve [] stopping = (.satisfiable model, stopping', solver) →
    Loops stopping' ({ optimizer with solver }.improve model) outcome →
      Loops stopping optimizer outcome
  /-- There is no cheaper assignment than the best one. -/
  | settled {stopping stopping' : condition} {optimizer : Optimizer} {solver : Solver}
    {core : List Literal} {outcome : Optimum × condition × Optimizer} :
    optimizer.proven = false →
    optimizer.solver.solve [] stopping = (.unsatisfiable core, stopping', solver) →
    optimizer.best.isNone = false →
    Loops stopping' { optimizer with solver, proven := true } outcome →
      Loops stopping optimizer outcome
  /-- There is no assignment at all. -/
  | refuted {stopping stopping' : condition} {optimizer : Optimizer} {solver : Solver}
    {core : List Literal} : optimizer.proven = false →
    optimizer.solver.solve [] stopping = (.unsatisfiable core, stopping', solver) →
    optimizer.best.isNone = true →
      Loops stopping optimizer (.infeasible, stopping', { optimizer with solver })
  /-- The search is interrupted. -/
  | stopped {stopping stopping' : condition} {optimizer : Optimizer} {solver : Solver} :
    optimizer.proven = false →
    optimizer.solver.solve [] stopping = (.unknown, stopping', solver) →
      Loops stopping optimizer (.stopped, stopping', { optimizer with solver })

/-- **The searches within a limit are those of the loop**, if there may be more of them than further
assignments. -/
theorem loops_searches (limit : Nat) (stopping : condition) (optimizer : Optimizer)
    (sound : optimizer.Sound demands objective) (some : 1 ≤ limit)
    (enough : optimizer.proven = false → optimizer.remaining + 2 ≤ limit) :
    Loops stopping optimizer (searches limit stopping optimizer) := by
  induction limit generalizing stopping optimizer with
  | zero => omega
  | succ limit ih =>
    unfold searches
    by_cases proven : optimizer.proven = true
    · rw [if_pos proven]
      exact .proven proven
    · rw [if_neg proven]
      rw [Bool.not_eq_true] at proven
      have left := enough proven
      generalize solved : optimizer.solver.solve [] stopping = search
      obtain ⟨answer, stopping', solver⟩ := search
      dsimp only
      cases answer with
      | unknown => exact .stopped proven solved
      | satisfiable model =>
        obtain ⟨sound', fewer⟩ := sound.improved proven solved
        exact .improved proven solved (ih stopping' _ sound' (by omega) fun _ => by omega)
      | unsatisfiable core =>
        dsimp only
        by_cases none : optimizer.best.isNone = true
        · rw [if_pos none]
          exact .refuted proven solved none
        · rw [if_neg none]
          rw [Bool.not_eq_true] at none
          exact .settled proven solved none (ih stopping' _ (sound.settled solved none) (by omega)
            fun unproven => absurd unproven.symm Bool.false_ne_true)

/-- There may be more searches than further assignments. -/
theorem Sound.remaining_lt (sound : optimizer.Sound demands objective) :
    optimizer.remaining + 2 ≤ optimizer.searchLimit + 1 := by
  obtain ⟨bounds, tracks⟩ := sound
  show optimizer.remaining + 2 ≤ 2 * spread optimizer.objective + 2 + 1
  unfold remaining
  cases best : optimizer.best with
  | none => exact Nat.le_refl _
  | some pair =>
    obtain ⟨model, cost⟩ := pair
    obtain ⟨_, equal, _⟩ := tracks.best model cost best
    have within := (signedWeight_within (valuation model) objective).2
    rw [tracks.same]
    dsimp only
    omega

/-- **The loop ends** for every optimizer that is sound, under every condition. -/
theorem loops_optimize (sound : optimizer.Sound demands objective) (stopping : condition) :
    Loops stopping optimizer (optimizer.optimize stopping) :=
  loops_searches _ stopping optimizer sound (Nat.le_add_left 1 _) fun _ => sound.remaining_lt

/-- The loop loses no assignment, and its outcome is right. -/
theorem Loops.right {stopping : condition} {outcome : Optimum × condition × Optimizer}
    (loops : Loops stopping optimizer outcome) (sound : optimizer.Sound demands objective) :
    outcome.2.2.Sound demands objective ∧ OptimumRight demands objective outcome.1 := by
  induction loops with
  | proven proven =>
    obtain ⟨_, tracks⟩ := sound
    exact ⟨⟨_, tracks⟩, tracks.result proven⟩
  | improved unproven solved _ ih => exact ih (sound.improved unproven solved).1
  | settled _ solved found _ ih => exact ih (sound.settled solved found)
  | refuted _ solved none => exact ⟨sound.solve solved, sound.refuted solved none⟩
  | stopped _ solved => exact ⟨sound.solve solved, trivial⟩

/-- A loop that is not interrupted comes to an answer. -/
theorem Loops.answer {quiet : condition → Prop} (calm : Interruption.Calm quiet)
    {stopping : condition} {outcome : Optimum × condition × Optimizer}
    (loops : Loops stopping optimizer outcome) (calmly : quiet stopping)
    (sound : optimizer.Sound demands objective) : outcome.1 ≠ .stopped ∧ quiet outcome.2.1 := by
  induction loops with
  | proven _ =>
    refine ⟨?_, calmly⟩
    unfold Optimizer.result
    split <;> exact nofun
  | improved unproven solved _ ih =>
    exact ih (sound.calm calm solved calmly).2 (sound.improved unproven solved).1
  | settled _ solved found _ ih =>
    exact ih (sound.calm calm solved calmly).2 (sound.settled solved found)
  | refuted _ solved _ => exact ⟨nofun, (sound.calm calm solved calmly).2⟩
  | stopped _ solved => exact absurd rfl (sound.calm calm solved calmly).1

/-- **What the searches find is the cheapest assignment**, and an interrupted search can be taken up
again. -/
theorem optimize_spec (sound : optimizer.Sound demands objective) (stopping : condition) :
    (optimizer.optimize stopping).2.2.Sound demands objective ∧
      OptimumRight demands objective (optimizer.optimize stopping).1 :=
  (loops_optimize sound stopping).right sound

/-- **A search that is not interrupted finds the cheapest assignment**, unless there is none. -/
theorem optimize_answer {quiet : condition → Prop} (calm : Interruption.Calm quiet)
    (stopping : condition) (calmly : quiet stopping)
    (sound : optimizer.Sound demands objective) :
    (optimizer.optimize stopping).1 ≠ .stopped ∧ quiet (optimizer.optimize stopping).2.1 :=
  (loops_optimize sound stopping).answer calm calmly sound

/-! ### What the optimizer is told -/

/-- The demands that the cardinalities of some rules come to. -/
def Expresses (numbering : Numbering) (demands : List Demand)
    (rules : List (RuleId × List Cardinality)) : Prop :=
  ∀ (value : ChoiceId → Bool) (assignment : Assignment), numbering.Matches value assignment →
    (Meets demands assignment ↔
      ∀ rule ∈ rules, ∀ cardinality ∈ rule.2, cardinality.holds value = true)

/-- Adding several bounded sums. -/
theorem faithful_addAll {solver : Solver} {phases : Assignment} (forms : List AtMost)
    (faithful : solver.Faithful demands phases) :
    (forms.foldl (fun solver form => (solver.addAtMost form).2) solver).Faithful
      (demands ++ forms.map .atMost) phases := by
  induction forms generalizing solver demands with
  | nil =>
    rw [List.map_nil, List.append_nil]
    exact faithful
  | cons form rest ih =>
    rw [List.map_cons, List.append_cons]
    exact ih (Solver.addAtMost_spec faithful form).faithful

theorem meets_atMost {forms : List AtMost} :
    Meets (forms.map .atMost) assignment ↔ ∀ form ∈ forms, form.holds assignment = true :=
  List.forall_mem_map

/-- A bare solver has variables but no demands. -/
theorem faithful_bare (count : Nat) :
    (Explainer.bare count).Faithful [] fun _ => false := by
  unfold Explainer.bare
  induction count with
  | zero => exact Solver.ready_empty.faithful
  | succ count ih =>
    rw [List.range_succ, List.foldl_append]
    exact ih.newVariable

theorem atomCount_le_addAll (forms : List AtMost) (solver : Solver) :
    solver.atomCount ≤
      (forms.foldl (fun solver form => (solver.addAtMost form).2) solver).atomCount := by
  induction forms generalizing solver with
  | nil => exact Nat.le_refl _
  | cons form rest ih => exact Nat.le_trans (Solver.atomCount_le_addAtMost form solver) (ih _)

theorem atomCount_bare (count : Nat) : (Explainer.bare count).atomCount = count := by
  unfold Explainer.bare
  induction count with
  | zero => rfl
  | succ count ih =>
    rw [List.range_succ, List.foldl_append]
    exact (Solver.atomCount_newVariable _).trans (congrArg Nat.succ ih)

variable {numbering : Numbering} {rules : List (RuleId × List Cardinality)}

/-- The values that an optimizer prefers: what lowers the cost is tried first. -/
def leaning (objective : List (Int × Literal)) : Assignment :=
  objective.foldl (fun preferred term =>
    if term.1 < 0 then fun atom => if atom = term.2.atom then term.2.positive else preferred atom
    else preferred) fun _ => false

/-- Setting phases takes no variable out of use, and makes the solver prefer what lowers the
cost. -/
theorem faithful_leaning {demands : List Demand} {solver : Solver}
    (proper : ∀ term ∈ objective, term.2.isVoid = false)
    (faithful : solver.Faithful demands fun _ => false) :
    (objective.foldl (fun solver term =>
        if term.1 < 0 then solver.setPhase term.2 else solver) solver).Faithful demands
      (leaning objective) ∧
    solver.atomCount ≤ (objective.foldl (fun solver term =>
        if term.1 < 0 then solver.setPhase term.2 else solver) solver).atomCount := by
  unfold leaning
  generalize (fun _ => false : Assignment) = preferred at faithful
  induction objective generalizing solver preferred with
  | nil => exact ⟨faithful, Nat.le_refl _⟩
  | cons term rest ih =>
    have later := fun other inside => proper other (List.mem_cons_of_mem term inside)
    rw [List.foldl_cons, List.foldl_cons]
    split
    · have set := faithful.setPhase (ne_of_beq_false (proper term List.mem_cons_self))
      obtain ⟨faithful', wider⟩ := ih later _ set
      exact ⟨faithful', Nat.le_trans (Solver.atomCount_le_reserve term.2 solver) wider⟩
    · exact ih later _ faithful

/-- Rules are added as bounded sums, which say what the rules say. -/
theorem addRules_forms {rules : List (RuleId × List Cardinality)} {solver solver' : Solver}
    (added : rules.foldlM (addRule numbering) solver = .ok solver') :
    ∃ forms : List AtMost,
      solver' = forms.foldl (fun solver form => (solver.addAtMost form).2) solver ∧
      ∀ entries, numbering.Covers entries →
        Expresses numbering (forms.map Demand.atMost) rules := by
  induction rules generalizing solver with
  | nil =>
    cases added
    refine ⟨[], rfl, fun _ _ value assignment _ => ?_⟩
    exact iff_of_true (fun demand inside => absurd inside List.not_mem_nil)
      fun rule inside => absurd inside List.not_mem_nil
  | cons rule rest ih =>
    rw [List.foldlM_cons] at added
    unfold addRule at added
    cases encoded : numbering.encodeAll rule.2 with
    | error error =>
      rw [encoded] at added
      cases added
    | ok here =>
      rw [encoded] at added
      obtain ⟨later, same, express⟩ := ih added
      refine ⟨here ++ later, ?_, fun entries covers value assignment agrees => ?_⟩
      · rw [List.foldl_append]
        exact same
      · rw [List.map_append, meets_append_list, meets_atMost,
          Numbering.encodeAll_spec covers agrees encoded, express entries covers value assignment
          agrees, List.forall_mem_cons]

/-- **An optimizer that is built is told what the rules say**, prefers what lowers the cost, and has
found nothing yet. -/
theorem build_told (proper : ∀ term ∈ objective, term.2.isVoid = false)
    (built : build numbering rules objective = .ok optimizer) :
    ∃ demands solver, optimizer = ⟨solver, objective, none, false⟩ ∧
      solver.Faithful demands (leaning objective) ∧ numbering.count ≤ solver.atomCount ∧
      ∀ entries, numbering.Covers entries → Expresses numbering demands rules := by
  unfold build at built
  cases added : rules.foldlM (addRule numbering) (Explainer.bare numbering.count) with
  | error error =>
    rw [added] at built
    cases built
  | ok solver =>
    rw [added] at built
    cases built
    obtain ⟨forms, rfl, express⟩ := addRules_forms added
    have wide := atomCount_le_addAll forms (Explainer.bare numbering.count)
    rw [atomCount_bare] at wide
    obtain ⟨faithful, wider⟩ :=
      faithful_leaning proper (faithful_addAll forms (faithful_bare numbering.count))
    exact ⟨_, _, rfl, faithful, Nat.le_trans wide wider, express⟩

/-- An optimizer that has found nothing yet is sound. -/
theorem sound_start (proper : ∀ term ∈ objective, term.2.isVoid = false) {solver : Solver}
    {phases : Assignment} (faithful : solver.Faithful demands phases) :
    Sound demands objective ⟨solver, objective, none, false⟩ := by
  refine ⟨[], rfl, proper, ⟨phases, ?_⟩, fun _ => ⟨rfl, rfl⟩, nofun, fun _ => nofun, fun _ => nofun⟩
  show Solver.Faithful (demands ++ []) phases solver
  rw [List.append_nil]
  exact faithful

/-- **An optimizer is told what the cardinalities of the rules say**, and nothing else. -/
theorem build_spec {entries : List ChoiceEntry} (covers : numbering.Covers entries)
    (proper : ∀ term ∈ objective, term.2.isVoid = false)
    (built : build numbering rules objective = .ok optimizer) :
    ∃ demands, optimizer.Sound demands objective ∧ Expresses numbering demands rules := by
  obtain ⟨demands, solver, rfl, faithful, _, express⟩ := build_told proper built
  exact ⟨demands, sound_start proper faithful, express entries covers⟩

end Optimizer

end Loadout
