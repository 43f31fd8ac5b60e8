/-
**What any history of calls leads to.**

`Solver.Reached` lists the ways in which a solver is used: variables are taken into use, phases are
set, clauses and bounded sums are added, and searches are run under any assumptions and with any
interruption. It carries the demands made so far, exactly as they were made, and the phases that
are preferred.

* `solve_spec`: a search answers right for the demands and leaves the solver faithful to them.
* **`Reached.faithful`**: so is every solver in reach, by induction on its history.
* **`solver_sound`**: no answer of a solver in reach contradicts the demands.
* **`solver_finds_first`**: a model comes before all other assignments that meet the demands and the
  assumptions, so it does not depend on the rest of the history.
-/

import Loadout.Proofs.Search.Additions

namespace Loadout

namespace Solver

variable {solver : Solver} {demands : List Demand} {phases : Assignment}
  {condition : Type} [Interruption condition]

/-! ### A search -/

/-- **An answer is right for some demands.** A model has a value for every variable in use, meets
the demands and the assumptions, and comes before every other assignment that does; a core consists
of assumptions that contradict the demands together. -/
def AnswersDemands (demands : List Demand) (phases : Assignment) (assumptions : List Literal)
    (count : Nat) : Answer → Prop
  | .satisfiable model =>
    (model.size = count + 1 ∧ valuation model 0 = false) ∧
      Meets demands (valuation model) ∧
      (∀ literal ∈ assumptions, literal.holds (valuation model) = true) ∧
      ∀ assignment, Meets demands assignment →
        (∀ literal ∈ assumptions, literal.holds assignment = true) →
          AgreeUpTo count (valuation model) assignment ∨
            Leads phases count (valuation model) assignment
  | .unsatisfiable core =>
    (∀ literal ∈ core, literal ∈ assumptions) ∧
      ∀ assignment, Meets demands assignment →
        ∃ literal ∈ core, literal.holds assignment = false
  | .unknown => True

/-- A ready solver says of its constraints what it says of the demands. -/
theorem Ready.answersDemands (ready : solver.Ready demands phases) {assumptions : List Literal}
    {answer : Answer} (right : solver.AnswersRight assumptions.toArray answer) :
    AnswersDemands demands phases assumptions solver.atomCount answer := by
  cases answer with
  | satisfiable model =>
    obtain ⟨shape, satisfied, assumed, first⟩ := right
    rw [ready.preferred] at first
    exact ⟨shape, (ready.exact _).mp satisfied,
      fun literal inside => assumed literal (List.mem_toArray.mpr inside),
      fun assignment meets assumed' => first assignment ((ready.exact assignment).mpr meets)
        fun literal inside => assumed' literal (List.mem_toArray.mp inside)⟩
  | unsatisfiable core =>
    exact ⟨fun literal inside => List.mem_toArray.mp (right.1 literal inside),
      fun assignment meets => right.2 assignment ((ready.exact assignment).mpr meets)⟩
  | unknown => trivial

/-- A solver at rest with the same constraints is as faithful as before. -/
theorem Ready.faithful_of_stable {new : Solver} (ready : solver.Ready demands phases)
    (stable : Stable solver new) (resting : new.Resting) : new.Faithful demands phases where
  contradictory inconsistent assignment meets :=
    resting.contradictory inconsistent assignment
      ((stable.satisfies assignment).mpr ((ready.exact assignment).mpr meets))
  ready consistent := ⟨resting.working consistent, resting.closed consistent,
    fun assignment => (stable.satisfies assignment).trans (ready.exact assignment),
    stable.preferred.trans ready.preferred, consistent⟩

/-- A solver at level zero keeps the law of decisions. -/
theorem Ready.ordered (ready : solver.Ready demands phases) (assumptions : Array Literal) :
    solver.trail.Ordered assumptions solver.preferred := by
  have core := ready.working.core
  refine Trail.Ordered.of_facts ready.closed fun atom entry found free => ?_
  obtain ⟨below, height, _⟩ := core.supported.free atom entry found free
  have within := (core.grounded.coherent.levelled atom entry found).1
  have closed := ready.closed
  omega

theorem solve_of_inconsistent (inconsistent : solver.inconsistent = true)
    (assumptions : List Literal) (stopping : condition) :
    solver.solve assumptions stopping = (.unsatisfiable [], stopping, solver.backtrack 0) := by
  unfold solve
  exact if_pos inconsistent

/-- A search starts at level zero with the variables of its assumptions in use. -/
theorem solve_of_consistent (consistent : solver.inconsistent = false)
    (assumptions : List Literal) (stopping : condition) :
    solver.solve assumptions stopping =
      rounds assumptions.toArray
        ((reserveAll assumptions (solver.backtrack 0)).roundLimit assumptions.toArray) stopping
        (reserveAll assumptions (solver.backtrack 0)) := by
  unfold solve
  refine if_neg ?_
  rw [show (solver.backtrack 0).inconsistent = solver.inconsistent from rfl, consistent]
  exact Bool.false_ne_true

/-- **A search answers right and leaves the solver faithful.** -/
theorem solve_spec (faithful : solver.Faithful demands phases) (assumptions : List Literal)
    (proper : ∀ literal ∈ assumptions, literal.atom ≠ 0) (stopping : condition) :
    (solver.solve assumptions stopping).2.2.Faithful demands phases ∧
      AnswersDemands demands phases assumptions
        (solver.solve assumptions stopping).2.2.atomCount
        (solver.solve assumptions stopping).1 := by
  have reverted := faithful.backtrack
  cases inconsistent : solver.inconsistent with
  | true =>
    rw [solve_of_inconsistent inconsistent]
    exact ⟨reverted, fun literal inside => absurd inside List.not_mem_nil,
      fun assignment meets => absurd meets (faithful.contradictory inconsistent assignment)⟩
  | false =>
    rw [solve_of_consistent inconsistent]
    have ready := (reverted.ready inconsistent).reserveAll assumptions
    have uses := uses_reserveAll assumptions proper (solver.backtrack 0)
    generalize reserveAll assumptions (solver.backtrack 0) = wider at ready uses
    obtain ⟨stable, resting, right⟩ := rounds_spec (wider.roundLimit assumptions.toArray) stopping
      wider ready.working (ready.ordered assumptions.toArray) ready.consistent
      fun literal inside => uses literal (List.mem_toArray.mp inside)
    refine ⟨ready.faithful_of_stable stable resting, ?_⟩
    have answers := ready.answersDemands right
    rw [← stable.atomCount] at answers
    exact answers

/-! ### Histories -/

/-- **The solvers that some history of calls leads to**, with the demands made and the phases
preferred. -/
inductive Reached : List Demand → Assignment → Solver → Prop
  /-- A fresh solver. -/
  | fresh : Reached [] (fun _ => false) .empty
  | newVariable {demands : List Demand} {phases : Assignment} {solver : Solver} :
    Reached demands phases solver → Reached demands phases solver.newVariable.2
  | setPhase {demands : List Demand} {phases : Assignment} {solver : Solver} (literal : Literal) :
    literal.atom ≠ 0 → Reached demands phases solver →
      Reached demands (fun atom => if atom = literal.atom then literal.positive else phases atom)
        (solver.setPhase literal)
  | addClause {demands : List Demand} {phases : Assignment} {solver : Solver}
    (literals : List Literal) : Reached demands phases solver →
      Reached (demands ++ [.clause literals]) phases (solver.addClause literals).2
  | addAtMost {demands : List Demand} {phases : Assignment} {solver : Solver}
    (constraint : AtMost) : Reached demands phases solver →
      Reached (demands ++ [.atMost constraint]) phases (solver.addAtMost constraint).2
  /-- A search, finished or interrupted. -/
  | solve {demands : List Demand} {phases : Assignment} {solver : Solver} {condition : Type}
    [Interruption condition] (assumptions : List Literal) (stopping : condition) :
    (∀ literal ∈ assumptions, literal.atom ≠ 0) → Reached demands phases solver →
      Reached demands phases (solver.solve assumptions stopping).2.2

/-- **Every solver in reach is faithful to the demands made of it.** -/
theorem Reached.faithful (reached : Reached demands phases solver) :
    solver.Faithful demands phases := by
  induction reached with
  | fresh => exact ready_empty.faithful
  | newVariable _ ih => exact ih.newVariable
  | setPhase literal proper _ ih => exact ih.setPhase proper
  | addClause literals _ ih => exact (addClause_spec ih literals).faithful
  | addAtMost constraint _ ih => exact (addAtMost_spec ih constraint).faithful
  | solve assumptions stopping proper _ ih => exact (solve_spec ih assumptions proper stopping).1

/-- **No answer of a solver contradicts the demands.** Whatever was asked of it before: when it is
inconsistent, or refuses a demand, no assignment meets the demands; a model meets them with all
assumptions; and a core of assumptions contradicts them. -/
theorem solver_sound (reached : Reached demands phases solver) :
    (solver.inconsistent = true → ∀ assignment, ¬Meets demands assignment) ∧
    (∀ literals, (solver.addClause literals).1 = false →
      ∀ assignment, ¬Meets (demands ++ [.clause literals]) assignment) ∧
    (∀ constraint, (solver.addAtMost constraint).1 = false →
      ∀ assignment, ¬Meets (demands ++ [.atMost constraint]) assignment) ∧
    ∀ (assumptions : List Literal) (stopping : condition),
      (∀ literal ∈ assumptions, literal.atom ≠ 0) →
      (∀ model, (solver.solve assumptions stopping).1 = .satisfiable model →
        Meets demands (valuation model) ∧
          ∀ literal ∈ assumptions, literal.holds (valuation model) = true) ∧
      ∀ core, (solver.solve assumptions stopping).1 = .unsatisfiable core →
        (∀ literal ∈ core, literal ∈ assumptions) ∧
          ¬∃ assignment, Meets demands assignment ∧
            ∀ literal ∈ core, literal.holds assignment = true := by
  have faithful := reached.faithful
  refine ⟨faithful.contradictory, fun literals refused => ?_, fun constraint refused => ?_,
    fun assumptions stopping proper => ?_⟩
  · have added := addClause_spec faithful literals
    exact added.faithful.contradictory (added.answer refused)
  · have added := addAtMost_spec faithful constraint
    exact added.faithful.contradictory (added.answer refused)
  · have answers := (solve_spec faithful assumptions proper stopping).2
    refine ⟨fun model found => ?_, fun core found => ?_⟩
    · rw [found] at answers
      exact ⟨answers.2.1, answers.2.2.1⟩
    · rw [found] at answers
      refine ⟨answers.1, fun ⟨assignment, meets, holds⟩ => ?_⟩
      obtain ⟨literal, inside, fails⟩ := answers.2 assignment meets
      rw [holds literal inside] at fails
      cases fails

/-- Two assumptions that a clause excludes together come back as the core. -/
theorem solver_sound_of_excluded :
    (∀ literal ∈ [(⟨2, false⟩ : Literal), ⟨1, false⟩],
      literal ∈ [(⟨1, false⟩ : Literal), ⟨2, false⟩]) ∧
    ¬∃ assignment, Meets [.clause [⟨1, true⟩, ⟨2, true⟩]] assignment ∧
      ∀ literal ∈ [(⟨2, false⟩ : Literal), ⟨1, false⟩], literal.holds assignment = true :=
  ((solver_sound (.addClause [⟨1, true⟩, ⟨2, true⟩] .fresh)).2.2.2
    [⟨1, false⟩, ⟨2, false⟩] (⟨⟩ : Never) (by decide)).2 _ (by decide +kernel)

/-! ### The model that is found -/

/-- Two assignments of which each agrees with the other or comes before it agree. -/
theorem agree_of_leads {preferred first second : Assignment} {count other : Nat}
    (one : AgreeUpTo count first second ∨ Leads preferred count first second)
    (two : AgreeUpTo other second first ∨ Leads preferred other second first) :
    AgreeUpTo (min count other) first second := by
  rcases one with agree | ⟨atom, positive, within, before, good, bad⟩
  · exact fun atom positive within => agree atom positive (by omega)
  · rcases two with agree | ⟨atom', positive', within', before', good', bad'⟩
    · exact fun atom positive within => (agree atom positive (by omega)).symm
    · -- Both would be the first variable where they differ.
      rcases Nat.lt_trichotomy atom atom' with below | same | above
      · rw [before' atom positive (by omega), good] at bad
        exact absurd rfl bad
      · subst same
        exact absurd good' bad
      · rw [before atom' positive' (by omega), good'] at bad'
        exact absurd rfl bad'

/-- Two lists of values that agree on all variables are the same. -/
theorem model_ext {first second : Array Bool} {count : Nat}
    (one : first.size = count + 1 ∧ valuation first 0 = false)
    (two : second.size = count + 1 ∧ valuation second 0 = false)
    (agree : AgreeUpTo count (valuation first) (valuation second)) : first = second := by
  refine Array.ext (one.1.trans two.1.symm) fun place inside inside' => ?_
  have same : valuation first place = valuation second place := by
    rcases Nat.eq_zero_or_pos place with zero | positive
    · rw [zero, one.2, two.2]
    · exact agree place positive (by omega)
  unfold valuation at same
  rwa [Array.getElem?_eq_getElem inside, Array.getElem?_eq_getElem inside'] at same

/-- **The model found is the first one**, in the order that compares the variables from one on and
prefers the phase of each. It depends on nothing else in the history: a solver of which equivalent
demands were made, with the same phases, finds the same values under the same assumptions. -/
theorem solver_finds_first (reached : Reached demands phases solver) {assumptions : List Literal}
    (proper : ∀ literal ∈ assumptions, literal.atom ≠ 0) (stopping : condition)
    {model : Array Bool}
    (found : (solver.solve assumptions stopping).1 = .satisfiable model) :
    (Meets demands (valuation model) ∧
      ∀ literal ∈ assumptions, literal.holds (valuation model) = true) ∧
    (∀ assignment, Meets demands assignment →
      (∀ literal ∈ assumptions, literal.holds assignment = true) →
        AgreeUpTo (solver.solve assumptions stopping).2.2.atomCount (valuation model) assignment ∨
          Leads phases (solver.solve assumptions stopping).2.2.atomCount (valuation model)
            assignment) ∧
    ∀ (demands' : List Demand) (solver' : Solver) (assumptions' : List Literal)
      (condition' : Type) [Interruption condition'] (stopping' : condition') (model' : Array Bool),
      Reached demands' phases solver' →
      (∀ assignment, Meets demands' assignment ↔ Meets demands assignment) →
      (∀ literal, literal ∈ assumptions' ↔ literal ∈ assumptions) →
      (solver'.solve assumptions' stopping').1 = .satisfiable model' →
        AgreeUpTo (min (solver.solve assumptions stopping).2.2.atomCount
          (solver'.solve assumptions' stopping').2.2.atomCount) (valuation model)
            (valuation model') ∧
        ((solver.solve assumptions stopping).2.2.atomCount =
          (solver'.solve assumptions' stopping').2.2.atomCount → model = model') := by
  have answers := (solve_spec reached.faithful assumptions proper stopping).2
  rw [found] at answers
  obtain ⟨shape, meets, assumed, first⟩ := answers
  refine ⟨⟨meets, assumed⟩, first, ?_⟩
  intro demands' solver' assumptions' condition' _ stopping' model' reached' same same' found'
  have answers' := (solve_spec reached'.faithful assumptions'
    (fun literal inside => proper literal ((same' literal).mp inside)) stopping').2
  rw [found'] at answers'
  obtain ⟨shape', meets', assumed', first'⟩ := answers'
  have agree := agree_of_leads
    (first _ ((same _).mp meets')
      fun literal inside => assumed' literal ((same' literal).mpr inside))
    (first' _ ((same _).mpr meets)
      fun literal inside => assumed literal ((same' literal).mp inside))
  refine ⟨agree, fun counts => ?_⟩
  rw [← counts, Nat.min_self] at agree
  rw [← counts] at shape'
  exact model_ext shape shape' agree

/-- The solver that was asked for one clause and for one phase. -/
def pairSolver : Solver :=
  (Solver.empty.addClause [⟨1, true⟩, ⟨2, true⟩]).2.setPhase ⟨3, true⟩

/-- Of the clause the second variable becomes true, since false is preferred for both; the third
variable follows its phase. -/
theorem solver_finds_first_of_pair :
    (pairSolver.solve [] (⟨⟩ : Never)).1 = .satisfiable #[false, false, true, true] ∧
    ∀ assignment, Meets [.clause [⟨1, true⟩, ⟨2, true⟩]] assignment →
      AgreeUpTo 3 (valuation #[false, false, true, true]) assignment ∨
        Leads (fun atom => if atom = 3 then true else false) 3
          (valuation #[false, false, true, true]) assignment := by
  have reached : Reached [.clause [⟨1, true⟩, ⟨2, true⟩]]
      (fun atom => if atom = 3 then true else false) pairSolver :=
    Reached.setPhase ⟨3, true⟩ (by decide) (.addClause [⟨1, true⟩, ⟨2, true⟩] .fresh)
  have found : (pairSolver.solve [] (⟨⟩ : Never)).1 =
      .satisfiable #[false, false, true, true] := by decide +kernel
  have count : (pairSolver.solve [] (⟨⟩ : Never)).2.2.atomCount = 3 := by decide +kernel
  have nothing : ∀ literal ∈ ([] : List Literal), literal.atom ≠ 0 := by decide
  have first := (solver_finds_first reached nothing (⟨⟩ : Never) found).2.1
  rw [count] at first
  exact ⟨found, fun assignment meets =>
    first assignment meets fun literal inside => absurd inside List.not_mem_nil⟩

end Solver

end Loadout
