/-
**A search draws all consequences before it decides.**

`Solver.Fitting` says that what is open fits into every sum. It holds of every solver in reach that
is consistent (`Reached.fits`): at level zero a new sum is checked when it is added, and a search
keeps it from round to round (`round_fits`), since a conflict is left for a level below all that
had not been handled yet.

`Solver.Draws` lists the states in which a search draws consequences: the one in which it starts,
and each one that a round leaves when the search goes on.

**`propagate_fixpoint`**: in each of them, propagation either ends with nothing left to draw, so
that every stored constraint is at rest (`Stored.AtRest`), or gives a constraint that the trail
violates by a literal of the present level.
-/

import Loadout.Proofs.Search.Histories
import Loadout.Proofs.Search.Slacks

namespace Loadout

namespace Solver

variable {solver old new : Solver} {place : Nat} {demands : List Demand} {phases : Assignment}
  {assumptions : Array Literal}

/-! ### Changes of the state -/

/-- What fits depends on the constraints and the trail alone. -/
theorem Fitting.congr (fitting : old.Fitting place)
    (constraints : new.constraints = old.constraints) (trail : new.trail = old.trail) :
    new.Fitting place := by
  unfold Fitting
  rw [constraints, trail]
  exact fitting

/-- A free decision on a new level does not disturb what fits. -/
theorem Fitting.decide (fitting : solver.Fitting place) (within : place ≤ solver.trail.length)
    {literal : Literal} (undecided : solver.trail.record? literal.atom = none) :
    (solver.openLevel.push literal none).Fitting place := by
  have opened : solver.openLevel.Fitting place := fitting
  exact opened.push within none undecided

/-- Taking a variable into use does not disturb what fits. -/
theorem Fitting.reserve (fitting : solver.Fitting place) (literal : Literal) :
    (solver.reserve literal).Fitting place := by
  refine fitting.grow (fun id linear found => ?_) (fun atom entry found => ?_)
    fun atom entry _ => ?_
  · rw [constraints_reserve] at found
    exact found
  · rw [record?_reserve]
    exact found
  · rw [record?_reserve]

theorem frontier_reserve (literal : Literal) (solver : Solver) :
    (solver.reserve literal).frontier = solver.frontier := by
  unfold Solver.reserve
  split <;> rfl

theorem Fitting.reserveAll (literals : List Literal) (fitting : solver.Fitting solver.frontier) :
    (reserveAll literals solver).Fitting (reserveAll literals solver).frontier := by
  induction literals generalizing solver with
  | nil => exact fitting
  | cons literal rest ih =>
    have reserved := fitting.reserve literal
    rw [← frontier_reserve literal solver] at reserved
    exact ih reserved

/-- Sifting a clause takes variables into use and nothing else. -/
theorem Fitting.sift (literals : List Literal) (kept : Clause)
    (fitting : solver.Fitting solver.frontier) :
    (sift literals kept solver).2.Fitting (sift literals kept solver).2.frontier := by
  induction literals generalizing kept solver with
  | nil => exact fitting
  | cons literal rest ih =>
    have reserved := fitting.reserve literal
    rw [← frontier_reserve literal solver] at reserved
    unfold Solver.sift
    split
    · exact ih kept fitting
    · dsimp only
      split
      · exact reserved
      · exact ih kept reserved
      · split
        · exact reserved
        · split
          · exact ih kept reserved
          · exact ih _ reserved

/-- A stored clause is no sum. -/
theorem Fitting.storeClause (fitting : solver.Fitting place) (literals : Clause) :
    (solver.store (.clause literals)).2.Fitting place := by
  refine fitting.grow (fun id linear found => ?_) (fun _ _ found => found) fun _ _ _ => Iff.rfl
  rw [getElem?_store] at found
  split at found
  · cases found
  · exact found

/-! ### Solvers at rest -/

/-- What is open fits, as far as the solver is not known to be inconsistent. -/
def FitsAtRest (solver : Solver) : Prop :=
  solver.inconsistent = false → solver.Fitting solver.frontier

theorem FitsAtRest.of_inconsistent (inconsistent : solver.inconsistent = true) :
    solver.FitsAtRest := by
  intro consistent
  rw [inconsistent] at consistent
  cases consistent

/-- Going back to level zero. -/
theorem FitsAtRest.backtrack (faithful : solver.Faithful demands phases)
    (fits : solver.FitsAtRest) : (solver.backtrack 0).FitsAtRest := by
  intro consistent
  rw [(faithful.ready consistent).backtrack]
  exact fits consistent

theorem FitsAtRest.reserve (fits : solver.FitsAtRest) (literal : Literal) :
    (solver.reserve literal).FitsAtRest := by
  intro consistent
  rw [inconsistent_reserve] at consistent
  rw [frontier_reserve]
  exact (fits consistent).reserve literal

/-- Adding a clause adds no sum, and its literal, when it has one only, is decided behind the
queue. -/
theorem FitsAtRest.addClause (faithful : solver.Faithful demands phases)
    (fits : solver.FitsAtRest) (literals : List Literal) :
    (solver.addClause literals).2.FitsAtRest := by
  have reverted := fits.backtrack faithful
  have faithful' := faithful.backtrack
  unfold Solver.addClause
  generalize solver.backtrack 0 = solver at reverted faithful'
  dsimp only
  cases inconsistent : solver.inconsistent with
  | true =>
    rw [if_pos rfl]
    exact reverted
  | false =>
    rw [if_neg Bool.false_ne_true]
    have ready := faithful'.ready inconsistent
    obtain ⟨ready', sifted⟩ := sift_spec literals [] solver ready
      ⟨fun _ inside => absurd inside List.not_mem_nil,
        fun _ inside => absurd inside List.not_mem_nil, List.nodup_nil⟩
    have fitting := Fitting.sift literals [] (reverted inconsistent)
    generalize Solver.sift literals [] solver = result at ready' sifted fitting
    obtain ⟨kept, sifter⟩ := result
    match kept with
    | none => exact fun _ => fitting
    | some [] => exact FitsAtRest.of_inconsistent rfl
    | some [unit] =>
      have undecided := sifted.1.undecided unit List.mem_cons_self
      have within := ready'.working.core.settled.within
      exact fun _ => (fitting.storeClause [unit]).push within _ undecided
    | some (first :: second :: rest) =>
      exact fun _ => (fitting.storeClause (first :: second :: rest)).congr rfl rfl

/-- **A sum is checked when it is added**, at level zero, where that is all there is to look at. -/
theorem Ready.withSum_fits (ready : solver.Ready demands phases) {linear : Linear}
    (uses : ∀ literal ∈ linear.terms.map Prod.snd, solver.Uses literal)
    (fitting : solver.Fitting solver.frontier) {final : Solver}
    (passed : (withSum linear solver).checkSum solver.constraints.size = (true, final)) :
    final.FitsAtRest := by
  have light : decidedWeight solver.trail linear.terms ≤ linear.bound := by
    by_contra exceeds
    rw [checkSum_eq (getElem?_withSum linear), show (withSum linear solver).trail = solver.trail
      from rfl, if_pos (Nat.lt_of_not_le exceeds)] at passed
    cases passed
  have core := ready.core_withSum uses light
  have within : solver.frontier ≤ solver.trail.length := core.settled.within
  have spares := checkSum_spares core (getElem?_withSum linear) (congrArg Prod.fst passed) within
  obtain ⟨progress, core', constraints, _, _⟩ := checkSum_spec core solver.constraints.size
  rw [passed] at spares progress core' constraints
  dsimp only at spares progress core' constraints
  have closed : final.trail.level = 0 := progress.toAdvance.level.trans ready.closed
  have front : final.frontier = solver.frontier := progress.frontier
  intro _ id other found
  rw [front]
  rw [constraints] at found
  have there : (solver.store (.sum linear)).2.constraints[id]? = some (.sum other) := found
  rw [getElem?_store] at there
  split at there
  · cases there
    exact spares.fits core'.grounded.coherent closed
  · exact (fitting id other there).grow progress.toAdvance.kept fun atom entry early =>
      progress.toAdvance.agrees atom entry (Nat.lt_of_lt_of_le early within)

theorem FitsAtRest.addLinear (faithful : solver.Faithful demands phases)
    (fits : solver.FitsAtRest) (linear : Linear)
    (proper : ∀ literal ∈ linear.terms.map Prod.snd, literal.atom ≠ 0) :
    (solver.addLinear linear).2.FitsAtRest := by
  have reverted := fits.backtrack faithful
  have faithful' := faithful.backtrack
  unfold Solver.addLinear
  generalize solver.backtrack 0 = solver at reverted faithful'
  dsimp only
  cases inconsistent : solver.inconsistent with
  | true =>
    rw [if_pos rfl]
    exact reverted
  | false =>
    rw [if_neg Bool.false_ne_true]
    split
    · next final passed =>
      exact ((faithful'.ready inconsistent).reserveAll (linear.terms.map Prod.snd)).withSum_fits
        (uses_reserveAll (linear.terms.map Prod.snd) proper solver)
        (Fitting.reserveAll (linear.terms.map Prod.snd) (reverted inconsistent)) passed
    · exact FitsAtRest.of_inconsistent rfl

theorem FitsAtRest.addAtMost (faithful : solver.Faithful demands phases)
    (fits : solver.FitsAtRest) (constraint : AtMost) :
    (solver.addAtMost constraint).2.FitsAtRest := by
  have proper := constraint.normalize_atoms
  unfold Solver.addAtMost
  generalize constraint.normalize = form at proper
  cases form with
  | tautology => exact fits
  | contradiction => exact FitsAtRest.of_inconsistent rfl
  | clause literals => exact fits.addClause faithful literals
  | linear sum => exact fits.addLinear faithful sum proper

/-! ### Rounds -/

theorem Remarked.fitting (remarked : Remarked old new) (fitting : old.Fitting place) :
    new.Fitting place :=
  fitting.congr remarked.constraints remarked.trail

/-- **A lesson is taken in below all that had not been handled yet.** -/
theorem Lesson.fits {done : Nat} (core : solver.Core done) (frontier : solver.frontier = done + 1)
    (inside : done < solver.trail.length) {first : Literal} {rest : List Literal} {target : Nat}
    (lesson : Lesson solver first rest target) (fitting : solver.Fitting done) :
    ((solver.backtrack target).learn (first :: rest)).FitsAtRest := by
  have coherent := core.grounded.coherent
  have removed := core.length_backtrack_le inside lesson.below
  have learned := learned_learn (solver.backtrack target) first rest
  have front : (solver.backtrack target).frontier = (solver.backtrack target).trail.length := by
    show min solver.frontier (solver.backtrack target).trail.length = _
    omega
  have reverted := fitting.backtrack coherent target removed
  have decided := (reverted.storeClause (first :: rest)).push (Nat.le_refl _)
    (some (solver.backtrack target).constraints.size) (lesson.undecided coherent)
  intro _
  rw [learned.frontier, front]
  exact decided.congr learned.constraints learned.trail

/-- A conflict above level zero is left with what fits. -/
theorem afterConflict_fits {done : Nat} (core : solver.Core done) (unmarked : solver.Unmarked)
    (frontier : solver.frontier = done + 1) (inside : done < solver.trail.length)
    {conflict : ConstraintId} (conflicting : solver.Conflicting conflict)
    (fitting : solver.Fitting done) : (solver.afterConflict conflict).2.FitsAtRest := by
  by_cases closed : solver.trail.level = 0
  · rw [afterConflict_closed closed]
    exact FitsAtRest.of_inconsistent rfl
  · rw [afterConflict_open closed]
    have counted : solver.countConflict.Core done := core.congr rfl rfl rfl rfl rfl
    have conflicting' : solver.countConflict.Conflicting conflict :=
      ⟨conflicting.isFalse, fun assignment satisfied =>
        conflicting.implied assignment satisfied, conflicting.late⟩
    obtain ⟨first, rest, shape, lesson, remarked, _⟩ := analyze_spec counted.grounded
      counted.supported (Nat.pos_of_ne_zero closed) unmarked conflicting'
    rw [shape]
    generalize solver.countConflict.analyze conflict = result at lesson remarked
    obtain ⟨_, target, analyzed⟩ := result
    dsimp only at lesson remarked ⊢
    have counting : solver.countConflict.Fitting done := fitting
    have trail : analyzed.trail = solver.trail := remarked.trail
    exact (remarked.lesson lesson).fits (remarked.core counted)
      (remarked.frontier.trans frontier) (by rw [trail]; exact inside) (remarked.fitting counting)

/-- The next assumption leaves what fits. -/
theorem assume_fits (core : solver.Core solver.frontier) (unmarked : solver.Unmarked)
    (fitting : solver.Fitting solver.frontier) (assumption : Literal) :
    (solver.assume assumption).2.FitsAtRest := by
  unfold assume
  match known : solver.trail.value? assumption with
  | some true => exact fun _ => fitting
  | none =>
    exact fun _ => fitting.decide core.settled.within (Trail.value?_eq_none_iff.mp known)
  | some false =>
    obtain ⟨remarked, _⟩ := analyzeFinal_spec core.grounded core.supported unmarked
      (Trail.value?_eq_false_iff.mp known)
    intro _
    dsimp only
    generalize solver.analyzeFinal assumption = result at remarked
    have coherent : result.2.trail.Coherent := (remarked.core core).grounded.coherent
    refine (remarked.fitting fitting).backtrack coherent 0 ?_
    rw [← remarked.frontier]
    exact Nat.min_le_left _ _

/-- A free decision leaves what fits. -/
theorem branch_fits {condition : Type} [Interruption condition] (stopping : condition)
    (core : solver.Core solver.frontier) (fitting : solver.Fitting solver.frontier) :
    (solver.branch stopping).2.2.FitsAtRest := by
  have search := firstUndecided_spec solver.trail solver.atomCount 1
  unfold branch branchLiteral
  cases found : firstUndecided solver.trail solver.atomCount 1 with
  | some atom =>
    rw [found] at search
    have counted : solver.countDecision.Fitting solver.frontier := fitting
    exact fun _ => counted.decide core.settled.within search.2.2.1
  | none => exact fun _ => fitting.backtrack core.grounded.coherent 0 (Nat.min_le_left _ _)

variable {condition : Type} [Interruption condition]

/-- **A round of a search leaves what fits.** -/
theorem round_fits (stopping : condition) (working : solver.Working)
    (fitting : solver.Fitting solver.frontier) :
    (solver.round assumptions stopping).2.2.FitsAtRest := by
  have balanced := propagate_fits working.core working.attached fitting
  obtain ⟨advance, _, exhausted⟩ := propagate_spec working.core working.attached
  unfold round
  generalize solver.propagate = result at balanced advance exhausted
  obtain ⟨conflict, middle⟩ := result
  dsimp only at balanced advance exhausted ⊢
  have unmarked : middle.Unmarked := by
    intro atom
    unfold isMarked
    rw [advance.marks]
    exact working.unmarked atom
  cases conflict with
  | some conflict =>
    obtain ⟨done, frontier, inside, core, conflicting⟩ := exhausted
    obtain ⟨done', frontier', fitting', _⟩ := balanced
    obtain rfl : done' = done := by omega
    exact afterConflict_fits core unmarked frontier inside conflicting fitting'
  | none =>
    obtain ⟨core, _⟩ := exhausted
    dsimp only
    generalize Interruption.poll stopping = polled
    obtain ⟨stop, stopping'⟩ := polled
    cases stop with
    | true =>
      exact fun _ => balanced.backtrack core.grounded.coherent 0 (Nat.min_le_left _ _)
    | false =>
      dsimp only
      cases assumptions[middle.trail.level]? with
      | some assumption => exact assume_fits core unmarked balanced assumption
      | none => exact branch_fits stopping' core balanced

/-- **What a search goes on with**: the invariants of a solver at work, and what fits. -/
structure Drawing (assumptions : Array Literal) (solver : Solver) : Prop where
  working : solver.Working
  ordered : solver.trail.Ordered assumptions solver.preferred
  consistent : solver.inconsistent = false
  uses : ∀ literal ∈ assumptions, solver.Uses literal
  fits : solver.Fitting solver.frontier

/-- A round that goes on keeps the invariants. -/
theorem Drawing.round (drawing : solver.Drawing assumptions) (stopping : condition)
    (goes : (solver.round assumptions stopping).1 = .next) :
    (solver.round assumptions stopping).2.2.Drawing assumptions := by
  obtain ⟨stable, outcome⟩ :=
    round_spec stopping drawing.working drawing.ordered drawing.consistent drawing.uses
  have fits : (solver.round assumptions stopping).2.2.FitsAtRest :=
    round_fits stopping drawing.working drawing.fits
  rw [goes] at outcome
  obtain ⟨working, ordered, consistent, _⟩ := outcome
  exact ⟨working, ordered, consistent,
    fun literal inside => stable.uses.mpr (drawing.uses literal inside), fits consistent⟩

/-- **Any number of rounds leaves what fits.** -/
theorem rounds_fits (limit : Nat) (stopping : condition) (solver : Solver)
    (drawing : solver.Drawing assumptions) :
    (rounds assumptions limit stopping solver).2.2.FitsAtRest := by
  induction limit generalizing stopping solver with
  | zero =>
    exact fun _ => drawing.fits.backtrack drawing.working.core.grounded.coherent 0
      (Nat.min_le_left _ _)
  | succ limit ih =>
    have fits : (solver.round assumptions stopping).2.2.FitsAtRest :=
      round_fits stopping drawing.working drawing.fits
    have goes := drawing.round stopping
    unfold rounds
    generalize solver.round assumptions stopping = result at fits goes
    obtain ⟨verdict, stopping', next⟩ := result
    cases verdict with
    | done answer => exact fits
    | next => exact ih stopping' next (goes rfl)

/-! ### Histories -/

/-- A consistent solver is ready to draw consequences once the assumptions are in use. -/
theorem Faithful.drawing (faithful : solver.Faithful demands phases) (fits : solver.FitsAtRest)
    (consistent : solver.inconsistent = false) {assumptions : List Literal}
    (proper : ∀ literal ∈ assumptions, literal.atom ≠ 0) :
    (reserveAll assumptions (solver.backtrack 0)).Drawing assumptions.toArray := by
  have ready := (faithful.backtrack.ready consistent).reserveAll assumptions
  have uses := uses_reserveAll assumptions proper (solver.backtrack 0)
  exact ⟨ready.working, ready.ordered assumptions.toArray, ready.consistent,
    fun literal inside => uses literal (List.mem_toArray.mp inside),
    (fits.backtrack faithful consistent).reserveAll assumptions⟩

theorem FitsAtRest.solve (faithful : solver.Faithful demands phases) (fits : solver.FitsAtRest)
    (assumptions : List Literal) (proper : ∀ literal ∈ assumptions, literal.atom ≠ 0)
    (stopping : condition) : (solver.solve assumptions stopping).2.2.FitsAtRest := by
  cases inconsistent : solver.inconsistent with
  | true =>
    rw [solve_of_inconsistent inconsistent]
    exact fits.backtrack faithful
  | false =>
    rw [solve_of_consistent inconsistent]
    exact rounds_fits _ stopping _ (faithful.drawing fits inconsistent proper)

/-- **In every consistent solver in reach, what is open fits.** -/
theorem Reached.fits (reached : Reached demands phases solver) : solver.FitsAtRest := by
  induction reached with
  | fresh =>
    intro _ id linear found
    simp [Solver.empty] at found
  | newVariable _ ih => exact ih.reserve _
  | setPhase literal _ _ ih => exact fun consistent => ih.reserve literal consistent
  | addClause literals reached ih => exact ih.addClause reached.faithful literals
  | addAtMost constraint reached ih => exact ih.addAtMost reached.faithful constraint
  | solve assumptions stopping proper reached ih =>
    exact ih.solve reached.faithful assumptions proper stopping

/-- **The states in which a search under some assumptions draws consequences.** -/
inductive Draws (assumptions : List Literal) : condition → Solver → Prop
  /-- The search starts, from any state that a history of calls leads to. -/
  | first {demands : List Demand} {phases : Assignment} {solver : Solver} {stopping : condition} :
    Reached demands phases solver → solver.inconsistent = false →
      (∀ literal ∈ assumptions, literal.atom ≠ 0) →
        Draws assumptions stopping (reserveAll assumptions (solver.backtrack 0))
  /-- The search goes on after a round. -/
  | next {stopping : condition} {solver : Solver} : Draws assumptions stopping solver →
      (solver.round assumptions.toArray stopping).1 = .next →
        Draws assumptions (solver.round assumptions.toArray stopping).2.1
          (solver.round assumptions.toArray stopping).2.2

theorem Draws.drawing {assumptions : List Literal} {stopping : condition}
    (draws : Draws assumptions stopping solver) : solver.Drawing assumptions.toArray := by
  induction draws with
  | first reached consistent proper =>
    exact reached.faithful.drawing reached.fits consistent proper
  | next _ goes ih => exact ih.round _ goes

end Solver

/-! ### The fixpoint -/

/-- **Nothing can be drawn from a constraint**: a clause has a true literal or two undecided ones,
and a sum is within its bound, with room for every undecided term. -/
def Stored.AtRest (trail : Trail) : Stored → Prop
  | .clause literals => (∃ literal ∈ literals, trail.isTrue literal = true) ∨
      ∃ first ∈ literals, ∃ second ∈ literals, first.atom ≠ second.atom ∧
        trail.value? first = none ∧ trail.value? second = none
  | .sum linear => Solver.decidedWeight trail linear.terms ≤ linear.bound ∧
      ∀ term ∈ linear.terms, trail.value? term.2 = none →
        term.1 ≤ linear.bound - Solver.decidedWeight trail linear.terms

namespace Solver

variable {solver : Solver}

/-- A settled clause is at rest: a watched literal that is false has a true one beside it, and two
watched literals that are neither true nor false are undecided. -/
theorem Settled.clause_atRest (grounded : solver.Grounded)
    (settled : solver.Settled solver.trail.length) {id : ConstraintId} {literals : Clause}
    (found : solver.constraints[id]? = some (.clause literals)) :
    (Stored.clause literals).AtRest solver.trail := by
  match literals, found with
  | [], found => exact absurd found (settled.nonempty id)
  | [literal], found =>
    obtain ⟨entry, records, _⟩ := settled.unit id literal found
    exact Or.inl ⟨literal, List.mem_cons_self, Trail.isTrue_iff.mpr ⟨entry, records⟩⟩
  | first :: second :: rest, found =>
    by_cases satisfied : ∃ literal ∈ first :: second :: rest, solver.trail.isTrue literal = true
    · exact Or.inl satisfied
    · have undecided : ∀ literal, literal = first ∨ literal = second →
          solver.trail.value? literal = none := by
        intro literal watched
        rw [Trail.value?_eq_none_iff, Option.eq_none_iff_forall_not_mem]
        intro entry decided
        rcases Trail.isTrue_or_isFalse decided with isTrue | isFalse
        · refine satisfied ⟨literal, ?_, isTrue⟩
          rcases watched with rfl | rfl
          · exact List.mem_cons_self
          · exact List.mem_cons_of_mem _ List.mem_cons_self
        · obtain ⟨record, opposite⟩ := Trail.isFalse_iff.mp isFalse
          obtain ⟨other, inside, witness, records, _⟩ :=
            settled.clause id first second rest found literal watched record opposite
              (grounded.coherent.position_lt opposite.1)
          exact satisfied ⟨other, inside, Trail.isTrue_iff.mpr ⟨witness, records⟩⟩
      have distinct := (List.nodup_cons.mp (grounded.distinct id _ found)).1
      refine Or.inr ⟨first, List.mem_cons_self, second,
        List.mem_cons_of_mem _ List.mem_cons_self, fun same => distinct ?_,
        undecided first (Or.inl rfl), undecided second (Or.inr rfl)⟩
      rw [same]
      exact List.mem_cons_self

/-- A sum is at rest once the whole queue is settled and everything open fits. -/
theorem Settled.sum_atRest (grounded : solver.Grounded)
    (settled : solver.Settled solver.trail.length) (fitting : solver.Fitting solver.trail.length)
    {id : ConstraintId} {linear : Linear}
    (found : solver.constraints[id]? = some (.sum linear)) :
    (Stored.sum linear).AtRest solver.trail := by
  have coherent := grounded.coherent
  have counted : passedWeight (trueBefore solver.trail (some solver.trail.length)) linear.terms =
      decidedWeight solver.trail linear.terms :=
    passedWeight_congr fun term _ => trueBefore_length coherent term.2
  have spares := (fitting id linear found).spares coherent
  refine ⟨by rw [← counted]; exact settled.sum id linear found, fun term inside undecided => ?_⟩
  have fits := spares term inside (Trail.value?_eq_none_iff.mp undecided)
  rw [counted] at fits
  omega

/-- **Propagation reaches a fixpoint or a violated constraint.** In every state in which a search
draws consequences: when propagation finds no conflict, the whole queue has been handled and every
constraint, stored or learned, is at rest; and a constraint that it gives is violated by the trail
and has a literal that was decided at the present level. -/
theorem propagate_fixpoint {condition : Type} [Interruption condition]
    {assumptions : List Literal} {stopping : condition}
    (draws : Draws assumptions stopping solver) :
    (solver.propagate.1 = none →
      solver.propagate.2.frontier = solver.propagate.2.trail.length ∧
      ∀ (id : ConstraintId) (stored : Stored),
        solver.propagate.2.constraints[id]? = some stored →
          stored.AtRest solver.propagate.2.trail) ∧
    ∀ conflict, solver.propagate.1 = some conflict →
      ∃ stored, solver.propagate.2.constraints[conflict]? = some stored ∧
        stored.Violated solver.propagate.2.trail ∧
        ∃ literal ∈ stored.literals,
          solver.propagate.2.trail.level? literal = some solver.propagate.2.trail.level := by
  have drawing := draws.drawing
  obtain ⟨_, _, exhausted⟩ := propagate_spec drawing.working.core drawing.working.attached
  have balanced := propagate_fits drawing.working.core drawing.working.attached drawing.fits
  constructor
  · intro none'
    rw [none'] at exhausted balanced
    obtain ⟨⟨grounded, _, settled⟩, ended⟩ := exhausted
    have fitting : solver.propagate.2.Fitting solver.propagate.2.frontier := balanced
    rw [ended] at settled fitting
    refine ⟨ended, fun id stored found => ?_⟩
    cases stored with
    | clause literals => exact settled.clause_atRest grounded found
    | sum linear => exact settled.sum_atRest grounded fitting found
  · intro conflict some'
    rw [some'] at balanced
    obtain ⟨_, _, _, violates⟩ := balanced
    exact violates

/-- A solver that was asked for either of two pairs, and for a sum that has no room for the second
literals of both. -/
def crowded : Solver :=
  ((Solver.empty.addClause [⟨1, true⟩, ⟨2, true⟩]).2.addClause [⟨1, true⟩, ⟨3, true⟩]).2.addAtMost
    ⟨[(2, ⟨2, true⟩), (2, ⟨3, true⟩), (1, ⟨4, true⟩)], 3⟩ |>.2

/-- Before any decision nothing is to be drawn. Once the first variable is false, the sum is
violated, and the propagation says so. -/
theorem propagate_fixpoint_of_crowded :
    (Stored.sum ⟨[(2, ⟨2, true⟩), (2, ⟨3, true⟩), (1, ⟨4, true⟩)], 3⟩).AtRest
      crowded.propagate.2.trail ∧
    ∃ stored, (crowded.round #[] (⟨⟩ : Never)).2.2.propagate.2.constraints[2]? = some stored ∧
      stored.Violated (crowded.round #[] (⟨⟩ : Never)).2.2.propagate.2.trail := by
  have reached : Reached [.clause [⟨1, true⟩, ⟨2, true⟩], .clause [⟨1, true⟩, ⟨3, true⟩],
      .atMost ⟨[(2, ⟨2, true⟩), (2, ⟨3, true⟩), (1, ⟨4, true⟩)], 3⟩] (fun _ => false) crowded :=
    .addAtMost _ (.addClause _ (.addClause _ .fresh))
  have first : Draws [] (⟨⟩ : Never) crowded := .first reached (by decide +kernel) (by decide)
  have next : Draws [] (⟨⟩ : Never) (crowded.round #[] (⟨⟩ : Never)).2.2 :=
    .next first (by decide +kernel)
  obtain ⟨stored, found, violated, _⟩ :=
    (propagate_fixpoint next).2 2 (by decide +kernel)
  exact ⟨((propagate_fixpoint first).1 (by decide +kernel)).2 2 _ (by decide +kernel),
    stored, found, violated⟩

end Solver

end Loadout
