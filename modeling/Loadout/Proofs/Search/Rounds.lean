/-
**Every round of a search keeps the invariants and answers right.**

A solver at work has settled the queue up to its frontier, its lists of watchers are right and no
variable is marked (`Solver.Working`). A round either goes on with such a solver, or ends with an
answer that is right for the stored constraints (`Solver.AnswersRight`) and leaves the solver at
rest (`Solver.Resting`).

* `afterConflict_spec`, `assume_spec`, `branch_spec`: the three ways in which a round may end.
* **`rounds_spec`**: the same for any number of rounds, by induction.
-/

import Loadout.Search.Solve
import Loadout.Proofs.Search.Decisions

namespace Loadout

/-- The assignment that a list of values describes; variables beyond it are false. -/
def valuation (model : Array Bool) : Assignment :=
  fun atom => model[atom]?.getD false

namespace Solver

variable {solver : Solver} {assumptions : Array Literal}

/-- The values that free decisions prefer. -/
def preferred (solver : Solver) : Assignment :=
  fun atom => solver.phases[atom]?.getD false

/-! ### Solvers at work and at rest -/

/-- **The invariants of a solver at work.** -/
structure Working (solver : Solver) : Prop where
  core : solver.Core solver.frontier
  attached : solver.Attached solver.watches.watching
  unmarked : solver.Unmarked

/-- **The invariants of a solver at rest**: it may have found that its constraints contradict each
other, and otherwise it is ready for work at level zero. -/
structure Resting (solver : Solver) : Prop where
  contradictory : solver.inconsistent = true → ∀ assignment, ¬solver.Satisfies assignment
  working : solver.inconsistent = false → solver.Working
  closed : solver.inconsistent = false → solver.trail.level = 0

theorem Resting.of_contradictory (inconsistent : solver.inconsistent = true)
    (contradictory : ∀ assignment, ¬solver.Satisfies assignment) : solver.Resting where
  contradictory _ := contradictory
  working consistent := by
    rw [inconsistent] at consistent
    cases consistent
  closed consistent := by
    rw [inconsistent] at consistent
    cases consistent

/-- What a search does not change. -/
structure Stable (old new : Solver) : Prop where
  satisfies : ∀ assignment, new.Satisfies assignment ↔ old.Satisfies assignment
  atomCount : new.atomCount = old.atomCount
  phases : new.phases = old.phases
  room : new.trail.room = old.trail.room

namespace Stable

theorem trans {first second third : Solver} (one : Stable first second)
    (two : Stable second third) : Stable first third :=
  ⟨fun assignment => (two.satisfies assignment).trans (one.satisfies assignment),
    two.atomCount.trans one.atomCount, two.phases.trans one.phases, two.room.trans one.room⟩

theorem preferred {old new : Solver} (stable : Stable old new) : new.preferred = old.preferred := by
  unfold Solver.preferred
  rw [stable.phases]

theorem uses {old new : Solver} (stable : Stable old new) {literal : Literal} :
    new.Uses literal ↔ old.Uses literal := by
  unfold Uses
  rw [stable.atomCount]

end Stable

theorem Advance.stable {old new : Solver} (advance : Advance old new) : Stable old new :=
  ⟨fun _ => advance.reorders.satisfies_iff, advance.atomCount, advance.phases, advance.room⟩

/-- Solvers with the same constraints are satisfied by the same assignments. -/
theorem satisfies_congr {old new : Solver} (same : new.constraints = old.constraints)
    (assignment : Assignment) : new.Satisfies assignment ↔ old.Satisfies assignment := by
  unfold Satisfies
  rw [same]

theorem Remarked.stable {old new : Solver} (remarked : Remarked old new) : Stable old new :=
  ⟨satisfies_congr remarked.constraints, remarked.atomCount, remarked.phases,
    congrArg Trail.room remarked.trail⟩

theorem stable_backtrack (solver : Solver) (level : Nat) : Stable solver (solver.backtrack level) :=
  ⟨satisfies_congr rfl, rfl, rfl, Trail.room_revertTo solver.trail level⟩

/-- Going back keeps the invariants. -/
theorem Working.backtrack (working : solver.Working) (level : Nat) :
    (solver.backtrack level).Working where
  core := ⟨working.core.grounded.backtrack level,
    working.core.supported.backtrack working.core.grounded level,
    working.core.settled.backtrack working.core.grounded level⟩
  attached := working.attached.congr rfl fun _ => rfl
  unmarked := working.unmarked

/-- Going back to level zero gives a solver at rest. -/
theorem Working.rest (working : solver.Working) (consistent : solver.inconsistent = false) :
    (solver.backtrack 0).Resting where
  contradictory found := by
    have same : (solver.backtrack 0).inconsistent = solver.inconsistent := rfl
    rw [same, consistent] at found
    cases found
  working _ := working.backtrack 0
  closed _ := by
    show (solver.trail.revertTo 0).level = 0
    rw [Trail.level_revertTo]
    exact Nat.zero_min _

/-- Opening a level once everything is settled. -/
theorem Working.openLevel (working : solver.Working)
    (settled : solver.frontier = solver.trail.length) : solver.openLevel.Working where
  core := by
    have core := working.core
    rw [settled] at core
    show solver.openLevel.Core solver.frontier
    rw [settled]
    exact ⟨core.grounded.openLevel, core.supported.openLevel,
      core.settled.openLevel core.grounded⟩
  attached := working.attached.congr rfl fun _ => rfl
  unmarked := working.unmarked

/-- **A free decision on a new level.** -/
theorem Working.decide (working : solver.Working)
    (settled : solver.frontier = solver.trail.length) {literal : Literal}
    (uses : solver.Uses literal) (undecided : solver.trail.record? literal.atom = none) :
    (solver.openLevel.push literal none).Working where
  core := by
    have opened := (working.openLevel settled).core
    exact ⟨opened.grounded.push uses none,
      working.core.supported.push_free working.core.grounded undecided,
      opened.settled.push none undecided⟩
  attached := working.attached.congr rfl fun _ => rfl
  unmarked := working.unmarked

theorem stable_decide (grounded : solver.Grounded) {literal : Literal}
    (uses : solver.Uses literal) : Stable solver (solver.openLevel.push literal none) := by
  refine ⟨satisfies_congr rfl, rfl, rfl, ?_⟩
  have roomy := (grounded.roomy literal uses).1
  show (solver.trail.openLevel.push literal none).room = solver.trail.room
  rw [Trail.room_push]
  show max solver.trail.room (literal.atom + 1) = solver.trail.room
  omega

/-! ### Answers -/

/-- **An answer is right for some assumptions**: a model has a value for every variable in use,
satisfies the constraints and the assumptions and comes before every other assignment that does; a
core consists of assumptions that contradict the constraints together. -/
def AnswersRight (solver : Solver) (assumptions : Array Literal) : Answer → Prop
  | .satisfiable model =>
    (model.size = solver.atomCount + 1 ∧ valuation model 0 = false) ∧
      solver.Satisfies (valuation model) ∧
      (∀ literal ∈ assumptions, literal.holds (valuation model) = true) ∧
      ∀ assignment, solver.Satisfies assignment →
        (∀ literal ∈ assumptions, literal.holds assignment = true) →
          AgreeUpTo solver.atomCount (valuation model) assignment ∨
            Leads solver.preferred solver.atomCount (valuation model) assignment
  | .unsatisfiable core =>
    (∀ literal ∈ core, literal ∈ assumptions) ∧
      ∀ assignment, solver.Satisfies assignment →
        ∃ literal ∈ core, literal.holds assignment = false
  | .unknown => True

/-- What a search does not change does not change what is right. -/
theorem Stable.answersRight {old new : Solver} (stable : Stable old new) {answer : Answer}
    (right : new.AnswersRight assumptions answer) : old.AnswersRight assumptions answer := by
  cases answer with
  | satisfiable model =>
    obtain ⟨shape, satisfied, assumed, first⟩ := right
    rw [stable.atomCount] at shape
    rw [stable.preferred, stable.atomCount] at first
    exact ⟨shape, (stable.satisfies _).mp satisfied, assumed, fun assignment satisfied' =>
      first assignment ((stable.satisfies assignment).mpr satisfied')⟩
  | unsatisfiable core =>
    exact ⟨right.1, fun assignment satisfied =>
      right.2 assignment ((stable.satisfies assignment).mpr satisfied)⟩
  | unknown => trivial

/-! ### Conflicts -/

/-- The literals in conflict at level zero contradict the constraints. -/
theorem Conflicting.contradictory (grounded : solver.Grounded) (supported : solver.Supported)
    {conflict : ConstraintId} (conflicting : solver.Conflicting conflict)
    (closed : solver.trail.level = 0) (assignment : Assignment) :
    ¬solver.Satisfies assignment := by
  intro satisfied
  obtain ⟨literal, inside, holds⟩ := conflicting.implied assignment satisfied
  obtain ⟨entry, records⟩ := Trail.isFalse_iff.mp (conflicting.isFalse literal inside)
  have within := (grounded.coherent.levelled _ entry records.1).1
  have opposite := supported.fact grounded satisfied records (by omega)
  rw [Literal.holds_neg, holds] at opposite
  cases opposite

theorem afterConflict_closed (closed : solver.trail.level = 0) (conflict : ConstraintId) :
    solver.afterConflict conflict =
      (.done (.unsatisfiable []), { solver.countConflict with inconsistent := true }) := by
  unfold afterConflict
  exact if_pos closed

theorem afterConflict_open (above : solver.trail.level ≠ 0) (conflict : ConstraintId) :
    solver.afterConflict conflict =
      (.next, ((solver.countConflict.analyze conflict).2.2.backtrack
        (solver.countConflict.analyze conflict).2.1).learn
          (solver.countConflict.analyze conflict).1) := by
  unfold afterConflict
  exact if_neg above

/-- What a conflict above level zero does to the trail: the search goes back to a lower level, where
a literal is forced. -/
def Backjump (old new : Trail) : Prop :=
  ∃ target literal id, target < old.level ∧ (old.revertTo target).record? literal.atom = none ∧
    new = (old.revertTo target).push literal (some id)

/-- Marks do not matter to a lesson. -/
theorem Remarked.lesson {old new : Solver} (remarked : Remarked old new) {first : Literal}
    {rest : List Literal} {target : Nat} (lesson : Lesson old first rest target) :
    Lesson new first rest target := by
  obtain ⟨implied, distinct, below, present, past, runnerUp, unit⟩ := lesson
  rw [← remarked.trail] at below present past runnerUp
  exact ⟨fun assignment satisfied =>
    implied assignment ((remarked.stable.satisfies assignment).mp satisfied), distinct, below,
    present, past, runnerUp, unit⟩

/-- The place in conflict belongs to the present level, so going back to a lower one removes it. -/
theorem Core.length_backtrack_le {done : Nat} (core : solver.Core done)
    (inside : done < solver.trail.length) {target : Nat} (below : target < solver.trail.level) :
    (solver.backtrack target).trail.length ≤ done := by
  have coherent := core.grounded.coherent
  have queued := Array.getElem?_eq_getElem (show done < solver.trail.queue.size from inside)
  obtain ⟨entry, records, here⟩ := coherent.recorded done _ queued
  have present := core.settled.fresh _ entry records.1 (by omega)
  show (solver.trail.revertTo target).length ≤ done
  rw [coherent.length_revertTo]
  by_contra late
  have low := (coherent.position_lt_iff records.1 target).mp (by omega)
  omega

/-- Going back from a conflict keeps the invariants, with everything that is left settled. -/
theorem Core.backtrack_below {done : Nat} (core : solver.Core done)
    (inside : done < solver.trail.length) {target : Nat} (below : target < solver.trail.level) :
    (solver.backtrack target).Core (solver.backtrack target).trail.length := by
  have settled := core.settled.backtrack core.grounded target
  rw [Nat.min_eq_right (core.length_backtrack_le inside below)] at settled
  exact ⟨core.grounded.backtrack target, core.supported.backtrack core.grounded target, settled⟩

/-- The first literal of a lesson is undecided at the level to go back to. -/
theorem Lesson.undecided (coherent : solver.trail.Coherent) {first : Literal}
    {rest : List Literal} {target : Nat} (lesson : Lesson solver first rest target) :
    (solver.backtrack target).trail.record? first.atom = none := by
  obtain ⟨present, recorded, height⟩ := lesson.present
  have below := lesson.below
  rw [Option.eq_none_iff_forall_not_mem]
  intro entry found
  have kept : (solver.trail.revertTo target).Records ⟨first.atom, entry.positive⟩ entry :=
    ⟨found, rfl⟩
  obtain ⟨old, low⟩ := coherent.records_revertTo.mp kept
  have same := old.1.symm.trans recorded.1
  cases same
  omega

/-- **A lesson is taken in by going back and learning.** -/
theorem Lesson.backjump {done : Nat} (core : solver.Core done)
    (attached : solver.Attached solver.watches.watching) (unmarked : solver.Unmarked)
    (frontier : solver.frontier = done + 1) (inside : done < solver.trail.length)
    {first : Literal} {rest : List Literal} {target : Nat}
    (lesson : Lesson solver first rest target) :
    ((solver.backtrack target).learn (first :: rest)).Working ∧
      Stable solver ((solver.backtrack target).learn (first :: rest)) ∧
      Backjump solver.trail ((solver.backtrack target).learn (first :: rest)).trail ∧
      ((solver.backtrack target).learn (first :: rest)).inconsistent = solver.inconsistent := by
  have coherent := core.grounded.coherent
  have removed := core.length_backtrack_le inside lesson.below
  have reverted := core.backtrack_below inside lesson.below
  have undecided := lesson.undecided coherent
  have level : (solver.backtrack target).trail.level = target := by
    have below := lesson.below
    show (solver.trail.revertTo target).level = target
    rw [Trail.level_revertTo]
    omega
  have records : ∀ literal entry, (solver.backtrack target).trail.Records literal entry ↔
      solver.trail.Records literal entry ∧ entry.level ≤ target := fun literal entry =>
    coherent.records_revertTo
  have uses : (solver.backtrack target).Uses first := by
    obtain ⟨present, recorded, _⟩ := lesson.present
    exact core.grounded.decided (-first) (Trail.isTrue_iff.mpr ⟨present, recorded⟩)
  have attached' : (solver.backtrack target).Attached (solver.backtrack target).watches.watching :=
    attached.congr rfl fun _ => rfl
  obtain ⟨learnedCore, watched, learned⟩ := learn_spec reverted attached' uses undecided
    lesson.distinct
    (fun literal member => by
      obtain ⟨entry, recorded, low⟩ := lesson.past literal member
      exact ⟨entry, (records _ entry).mpr ⟨recorded, low⟩⟩)
    (fun second tail same => by
      obtain ⟨entry, recorded, same'⟩ := lesson.runnerUp second tail same
      exact ⟨entry, (records _ entry).mpr ⟨recorded, by omega⟩, by rw [level, same']⟩)
    (fun empty => level.trans (lesson.unit empty))
  generalize (solver.backtrack target).learn (first :: rest) = final at learnedCore watched learned
  have front : final.frontier = (solver.backtrack target).trail.length := by
    rw [learned.frontier]
    show min solver.frontier (solver.backtrack target).trail.length = _
    omega
  refine ⟨⟨by rw [front]; exact learnedCore, watched, fun atom => ?_⟩, ⟨fun assignment => ?_,
    learned.atomCount, learned.phases, ?_⟩, ⟨target, first, _, lesson.below, undecided,
      learned.trail⟩, learned.inconsistent⟩
  · unfold isMarked
    rw [learned.marks]
    exact unmarked atom
  · refine Iff.trans ?_ (and_iff_left_of_imp (lesson.implied assignment))
    have stored : (solver.store (.clause (first :: rest))).2.Satisfies assignment ↔ _ :=
      satisfies_store
    exact (satisfies_congr learned.constraints assignment).trans stored
  · have roomy := (reverted.grounded.roomy first uses).1
    rw [learned.trail, Trail.room_push]
    have same : (solver.backtrack target).trail.room = solver.trail.room :=
      Trail.room_revertTo solver.trail target
    omega

/-- **A conflict above level zero is left with a learned clause.** -/
theorem afterConflict_spec {done : Nat} (core : solver.Core done)
    (attached : solver.Attached solver.watches.watching) (unmarked : solver.Unmarked)
    (frontier : solver.frontier = done + 1) (inside : done < solver.trail.length)
    (above : solver.trail.level ≠ 0) {conflict : ConstraintId}
    (conflicting : solver.Conflicting conflict) :
    (solver.afterConflict conflict).1 = .next ∧ (solver.afterConflict conflict).2.Working ∧
      Stable solver (solver.afterConflict conflict).2 ∧
      Backjump solver.trail (solver.afterConflict conflict).2.trail ∧
      (solver.afterConflict conflict).2.inconsistent = solver.inconsistent := by
  rw [afterConflict_open above]
  have counted : solver.countConflict.Core done := core.congr rfl rfl rfl rfl rfl
  have conflicting' : solver.countConflict.Conflicting conflict :=
    ⟨conflicting.isFalse, fun assignment satisfied =>
      conflicting.implied assignment satisfied, conflicting.late⟩
  obtain ⟨first, rest, shape, lesson, remarked, cleared⟩ := analyze_spec counted.grounded
    counted.supported (Nat.pos_of_ne_zero above) unmarked conflicting'
  rw [shape]
  generalize solver.countConflict.analyze conflict = result at lesson remarked cleared
  obtain ⟨_, target, analyzed⟩ := result
  dsimp only at lesson remarked cleared ⊢
  have same : analyzed.watches = solver.watches := remarked.watches
  have attached' : analyzed.Attached analyzed.watches.watching := by
    rw [same]
    exact attached.congr remarked.constraints fun _ => by rw [same]
  have trail : analyzed.trail = solver.trail := remarked.trail
  obtain ⟨working, stable, jump, inconsistent⟩ := (remarked.lesson lesson).backjump
    (remarked.core counted) attached' cleared (remarked.frontier.trans frontier)
    (by rw [trail]; exact inside)
  rw [trail] at jump
  have counting : Stable solver solver.countConflict := ⟨satisfies_congr rfl, rfl, rfl, rfl⟩
  exact ⟨rfl, working, (counting.trans remarked.stable).trans stable, jump,
    inconsistent.trans remarked.inconsistent⟩

/-! ### Assumptions -/

/-- How a round that goes on changes the trail after propagation: the search goes back, or opens a
level, which stays empty for some of the assumptions only. -/
def Moves (assumed : Nat) (old new : Trail) : Prop :=
  Backjump old new ∨ old.level < assumed ∧ new = old.openLevel ∨
    ∃ literal, old.record? literal.atom = none ∧ new = old.openLevel.push literal none

/-- **What is known after a round**, by its result. -/
def RoundOutcome (old : Solver) (assumptions : Array Literal) (new : Solver) : Round → Prop
  | .next => new.Working ∧ new.trail.Ordered assumptions new.preferred ∧
      new.inconsistent = false ∧ Moves assumptions.size old.trail new.trail
  | .done answer => new.Resting ∧ old.AnswersRight assumptions answer

/-- **A false assumption fails** because of assumptions that contradict the constraints. -/
theorem fail_spec (working : solver.Working)
    (ordered : solver.trail.Ordered assumptions solver.preferred)
    (consistent : solver.inconsistent = false) {assumption : Literal}
    (given : assumptions[solver.trail.level]? = some assumption)
    (isFalse : solver.trail.isFalse assumption = true) :
    Stable solver ((solver.analyzeFinal assumption).2.backtrack 0) ∧
      ((solver.analyzeFinal assumption).2.backtrack 0).Resting ∧
      solver.AnswersRight assumptions (.unsatisfiable (solver.analyzeFinal assumption).1) := by
  have grounded := working.core.grounded
  have early : solver.trail.level < assumptions.size := (Array.getElem?_eq_some_iff.mp given).1
  obtain ⟨remarked, cleared, free, contradict⟩ := analyzeFinal_spec grounded
    working.core.supported working.unmarked isFalse
  generalize solver.analyzeFinal assumption = result at remarked cleared free contradict
  obtain ⟨core, analyzed⟩ := result
  have same : analyzed.watches = solver.watches := remarked.watches
  have working' : analyzed.Working := by
    refine ⟨?_, ?_, cleared⟩
    · rw [show analyzed.frontier = solver.frontier from remarked.frontier]
      exact remarked.core working.core
    · rw [same]
      exact working.attached.congr remarked.constraints fun _ => by rw [same]
  refine ⟨remarked.stable.trans (stable_backtrack analyzed 0),
    working'.rest (remarked.inconsistent.trans consistent), fun literal inside => ?_, contradict⟩
  rcases free literal inside with equal | ⟨entry, records, reasonless⟩
  · rw [equal]
    exact Array.mem_of_getElem? given
  · have within := (grounded.coherent.levelled _ entry records.1).1
    rcases ordered.free literal entry records reasonless with assumed | ⟨late, _⟩
    · exact assumed
    · omega

/-- **The next assumption is true already, gets its level, or is false and fails.** -/
theorem assume_spec (working : solver.Working) (settled : solver.frontier = solver.trail.length)
    (ordered : solver.trail.Ordered assumptions solver.preferred)
    (consistent : solver.inconsistent = false) {assumption : Literal}
    (given : assumptions[solver.trail.level]? = some assumption)
    (uses : solver.Uses assumption) :
    Stable solver (solver.assume assumption).2 ∧
      RoundOutcome solver assumptions (solver.assume assumption).2
        (solver.assume assumption).1 := by
  have grounded := working.core.grounded
  have early : solver.trail.level < assumptions.size := (Array.getElem?_eq_some_iff.mp given).1
  unfold assume
  match known : solver.trail.value? assumption with
  | some true =>
    have isTrue := Trail.value?_eq_true_iff.mp known
    exact ⟨⟨satisfies_congr rfl, rfl, rfl, rfl⟩, working.openLevel settled,
      ordered.openLevel grounded.coherent given isTrue, consistent, Or.inr (Or.inl ⟨early, rfl⟩)⟩
  | none =>
    have undecided := Trail.value?_eq_none_iff.mp known
    refine ⟨stable_decide grounded uses, working.decide settled uses undecided,
      ordered.decide grounded.coherent undecided (fun other given' => ?_) (Or.inl ?_),
      consistent, Or.inr (Or.inr ⟨assumption, undecided, rfl⟩)⟩
    · rw [given] at given'
      exact (Option.some.inj given').symm
    · exact Array.mem_of_getElem? given
  | some false =>
    exact fail_spec working ordered consistent given (Trail.value?_eq_false_iff.mp known)

/-! ### Free decisions -/

/-- The search for an undecided variable finds the first one. -/
theorem firstUndecided_spec (trail : Trail) (count atom : Nat) :
    match firstUndecided trail count atom with
    | none => ∀ other, atom ≤ other → other < atom + count → trail.record? other ≠ none
    | some found => atom ≤ found ∧ found < atom + count ∧ trail.record? found = none ∧
        ∀ other, atom ≤ other → other < found → trail.record? other ≠ none := by
  induction count generalizing atom with
  | zero => exact fun other low high => by omega
  | succ count ih =>
    unfold firstUndecided
    by_cases decided : trail.decided atom = true
    · rw [if_pos decided]
      have known : trail.record? atom ≠ none := Option.isSome_iff_ne_none.mp decided
      have rest := ih (atom + 1)
      cases found : firstUndecided trail count (atom + 1) with
      | none =>
        rw [found] at rest
        intro other low high
        rcases Nat.eq_or_lt_of_le low with here | above
        · rw [← here]
          exact known
        · exact rest other above (by omega)
      | some first =>
        rw [found] at rest
        obtain ⟨low, high, undecided, before⟩ := rest
        refine ⟨by omega, by omega, undecided, fun other low' high' => ?_⟩
        rcases Nat.eq_or_lt_of_le low' with here | above
        · rw [← here]
          exact known
        · exact before other above high'
    · rw [if_neg decided]
      refine ⟨Nat.le_refl _, by omega, ?_, fun other low high => by omega⟩
      simpa [Trail.decided] using decided

/-- Filled up flags keep their values. -/
theorem getElem?_fillUp (length : Nat) (flags : Array Bool) (place : Nat) :
    (fillUp length flags)[place]?.getD false = flags[place]?.getD false := by
  unfold fillUp
  rw [Array.getElem?_append, Array.getElem?_replicate]
  split
  · rfl
  · next outside =>
    rw [Array.getElem?_eq_none_iff.mpr (Nat.le_of_not_lt outside)]
    split <;> rfl

theorem size_fillUp (length : Nat) (flags : Array Bool) :
    (fillUp length flags).size = max flags.size length := by
  unfold fillUp
  rw [Array.size_append, Array.size_replicate]
  omega

/-- The values given back are those of the trail. -/
theorem Grounded.follows_model (grounded : solver.Grounded) :
    Follows solver.trail (valuation solver.model) := by
  intro literal isTrue
  have uses := grounded.decided literal isTrue
  obtain ⟨entry, records⟩ := Trail.isTrue_iff.mp isTrue
  have roomy : literal.atom < solver.trail.entries.size := (grounded.roomy literal uses).1
  have found : solver.trail.entries[literal.atom]? = some (some entry) := by
    have recorded := records.1
    unfold Trail.record? at recorded
    rw [Array.getElem?_eq_getElem roomy] at recorded ⊢
    exact congrArg some recorded
  unfold valuation Literal.holds model
  dsimp only
  rw [Trail.getElem?_take, if_pos (Nat.lt_succ_of_le uses.2)]
  unfold fillUp Trail.model
  rw [Array.getElem?_append_left (by rw [Array.size_map]; exact roomy), Array.getElem?_map, found]
  simp [records.2]

/-- The values given back are as many as there are variables; the one at zero is false. -/
theorem Grounded.model_shape (grounded : solver.Grounded) :
    solver.model.size = solver.atomCount + 1 ∧ valuation solver.model 0 = false := by
  constructor
  · unfold model
    rw [Array.take_eq_extract, Array.size_extract, size_fillUp]
    omega
  · unfold valuation model
    rw [Trail.getElem?_take, if_pos (Nat.succ_pos _), getElem?_fillUp]
    unfold Trail.model
    rw [Array.getElem?_map]
    cases found : solver.trail.entries[0]? with
    | none => rfl
    | some slot =>
      cases slot with
      | none => rfl
      | some entry =>
        have records : solver.trail.Records ⟨0, entry.positive⟩ entry :=
          ⟨by unfold Trail.record?; rw [found]; rfl, rfl⟩
        have uses := grounded.decided _ (Trail.isTrue_iff.mpr ⟨entry, records⟩)
        exact absurd rfl uses.1

/-- **The lowest undecided variable gets its preferred value, or everything is decided.** -/
theorem branch_spec {condition : Type} [Interruption condition] (stopping : condition)
    (working : solver.Working) (settled : solver.frontier = solver.trail.length)
    (ordered : solver.trail.Ordered assumptions solver.preferred)
    (consistent : solver.inconsistent = false)
    (all : assumptions[solver.trail.level]? = none) :
    Stable solver (solver.branch stopping).2.2 ∧
      RoundOutcome solver assumptions (solver.branch stopping).2.2
        (solver.branch stopping).1 := by
  have core := working.core
  have grounded := core.grounded
  have late : assumptions.size ≤ solver.trail.level := Array.getElem?_eq_none_iff.mp all
  have search := firstUndecided_spec solver.trail solver.atomCount 1
  unfold branch branchLiteral
  cases found : firstUndecided solver.trail solver.atomCount 1 with
  | some atom =>
    rw [found] at search
    obtain ⟨positive, within, undecided, lower⟩ := search
    rw [Option.map_some]
    have uses : solver.Uses ⟨atom, solver.phases[atom]?.getD false⟩ :=
      ⟨Nat.ne_of_gt positive, by
        show atom ≤ solver.atomCount
        omega⟩
    have counted : solver.countDecision.Working :=
      ⟨core.congr rfl rfl rfl rfl rfl, working.attached.congr rfl fun _ => rfl, working.unmarked⟩
    have counting : Stable solver solver.countDecision := ⟨satisfies_congr rfl, rfl, rfl, rfl⟩
    refine ⟨counting.trans (stable_decide counted.core.grounded uses),
      counted.decide settled uses undecided, ?_, consistent,
      Or.inr (Or.inr ⟨_, undecided, rfl⟩)⟩
    refine ordered.decide grounded.coherent undecided (fun other given => ?_)
      (Or.inr ⟨late, rfl, fun other low high => lower other low high⟩)
    rw [all] at given
    cases given
  | none =>
    rw [found] at search
    refine ⟨stable_backtrack solver 0, working.rest consistent, grounded.model_shape, ?_, ?_, ?_⟩
    all_goals have complete : ∀ atom, 0 < atom → atom ≤ solver.atomCount →
        solver.trail.record? atom ≠ none := fun atom low high => search atom low (by omega)
    · refine Settled.satisfies grounded ?_
        (fun literal uses => complete literal.atom (Nat.pos_of_ne_zero uses.1) uses.2)
        grounded.follows_model
      rw [← settled]
      exact core.settled
    · intro literal inside
      obtain ⟨place, early, here⟩ := Array.mem_iff_getElem.mp inside
      obtain ⟨entry, records, _⟩ := ordered.assumed place literal
        (Array.getElem?_eq_some_iff.mpr ⟨early, here⟩) (by omega)
      exact grounded.follows_model literal (Trail.isTrue_iff.mpr ⟨entry, records⟩)
    · intro assignment satisfied assumed
      exact ordered_leads grounded core.supported ordered complete grounded.follows_model satisfied
        assumed

/-! ### Whole rounds -/

variable {condition : Type} [Interruption condition]

/-- **One round of a search.** Between propagation and the rest of the round the trail is that of
`Solver.propagate`. -/
theorem round_spec (stopping : condition) (working : solver.Working)
    (ordered : solver.trail.Ordered assumptions solver.preferred)
    (consistent : solver.inconsistent = false)
    (used : ∀ literal ∈ assumptions, solver.Uses literal) :
    Stable solver (solver.round assumptions stopping).2.2 ∧
      RoundOutcome solver.propagate.2 assumptions (solver.round assumptions stopping).2.2
        (solver.round assumptions stopping).1 := by
  obtain ⟨advance, attached, exhausted⟩ := propagate_spec working.core working.attached
  unfold round
  generalize solver.propagate = result at advance attached exhausted
  obtain ⟨conflict, middle⟩ := result
  dsimp only at advance attached exhausted ⊢
  have unmarked : middle.Unmarked := by
    intro atom
    unfold isMarked
    rw [advance.marks]
    exact working.unmarked atom
  have consistent' : middle.inconsistent = false := advance.inconsistent.trans consistent
  have ordered' : middle.trail.Ordered assumptions middle.preferred := by
    rw [advance.stable.preferred]
    exact advance.ordered ordered
  cases conflict with
  | some conflict =>
    obtain ⟨done, frontier, inside, core, conflicting⟩ := exhausted
    dsimp only
    by_cases closed : middle.trail.level = 0
    · have contradictory := conflicting.contradictory core.grounded core.supported closed
      rw [afterConflict_closed closed]
      refine ⟨advance.stable.trans ⟨satisfies_congr rfl, rfl, rfl, rfl⟩,
        Resting.of_contradictory rfl contradictory,
        fun literal inside => absurd inside List.not_mem_nil,
        fun assignment satisfied => absurd satisfied (contradictory assignment)⟩
    · obtain ⟨next, working', stable, jump, inconsistent⟩ := afterConflict_spec core attached
        unmarked frontier inside closed conflicting
      rw [next]
      refine ⟨advance.stable.trans stable, working', ?_, inconsistent.trans consistent',
        Or.inl jump⟩
      obtain ⟨target, literal, id, _, undecided, trail⟩ := jump
      rw [stable.preferred, trail]
      exact (ordered'.revertTo core.grounded.coherent target).push_forced undecided id
  | none =>
    obtain ⟨core, settled⟩ := exhausted
    have working' : middle.Working := ⟨core, attached, unmarked⟩
    dsimp only
    generalize Interruption.poll stopping = polled
    obtain ⟨stop, stopping'⟩ := polled
    cases stop with
    | true =>
      exact ⟨advance.stable.trans (stable_backtrack middle 0), working'.rest consistent', trivial⟩
    | false =>
      dsimp only
      cases given : assumptions[middle.trail.level]? with
      | some assumption =>
        have uses := advance.stable.uses.mpr (used assumption (Array.mem_of_getElem? given))
        obtain ⟨stable, outcome⟩ := assume_spec working' settled ordered' consistent' given uses
        exact ⟨advance.stable.trans stable, outcome⟩
      | none =>
        obtain ⟨stable, outcome⟩ :=
          branch_spec stopping' working' settled ordered' consistent' given
        exact ⟨advance.stable.trans stable, outcome⟩

/-- **Any number of rounds leaves the solver at rest with a right answer.** -/
theorem rounds_spec (limit : Nat) (stopping : condition) (solver : Solver)
    (working : solver.Working) (ordered : solver.trail.Ordered assumptions solver.preferred)
    (consistent : solver.inconsistent = false)
    (used : ∀ literal ∈ assumptions, solver.Uses literal) :
    Stable solver (rounds assumptions limit stopping solver).2.2 ∧
      (rounds assumptions limit stopping solver).2.2.Resting ∧
      solver.AnswersRight assumptions (rounds assumptions limit stopping solver).1 := by
  induction limit generalizing stopping solver with
  | zero => exact ⟨stable_backtrack solver 0, working.rest consistent, trivial⟩
  | succ limit ih =>
    obtain ⟨stable, outcome⟩ := round_spec stopping working ordered consistent used
    have propagated := (propagate_spec working.core working.attached).1.stable
    unfold rounds
    generalize solver.round assumptions stopping = result at stable outcome
    obtain ⟨verdict, stopping', next⟩ := result
    cases verdict with
    | done answer => exact ⟨stable, outcome.1, propagated.answersRight outcome.2⟩
    | next =>
      obtain ⟨working', ordered', consistent', _⟩ := outcome
      obtain ⟨stable', resting, right⟩ := ih stopping' next working' ordered' consistent'
        fun literal inside => stable.uses.mpr (used literal inside)
      exact ⟨stable.trans stable', resting, stable.answersRight right⟩

end Solver

end Loadout
