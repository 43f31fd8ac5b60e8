/-
**A solver at rest is faithful to what was demanded of it.**

`Solver.Ready` describes a solver that waits for work at level zero: an assignment satisfies the
stored constraints exactly when it meets the demands made so far, and free decisions prefer the
phases that were set. A solver at rest is ready, or inconsistent with demands that no assignment
meets (`Solver.Faithful`).

Taking variables into use and setting phases change no demand: `Ready.reserve`,
`Faithful.newVariable`, `Faithful.setPhase`.
-/

import Loadout.Proofs.Search.Rounds

namespace Loadout

/-! ### Room for variables -/

namespace Trail

@[simp] theorem records_makeRoom (trail : Trail) (atom : Nat) :
    (trail.makeRoom atom).Records = trail.Records := by
  funext literal entry
  unfold Records
  rw [record?_makeRoom]

@[simp] theorem isTrue_makeRoom (trail : Trail) (atom : Nat) :
    (trail.makeRoom atom).isTrue = trail.isTrue := by
  funext literal
  rw [Bool.eq_iff_iff, isTrue_iff, isTrue_iff, records_makeRoom]

end Trail

@[simp] theorem trueBefore_makeRoom (trail : Trail) (atom place : Nat) :
    Solver.trueBefore (trail.makeRoom atom) (some place) =
      Solver.trueBefore trail (some place) := by
  funext literal
  rw [Bool.eq_iff_iff, Solver.trueBefore_iff, Solver.trueBefore_iff, Trail.records_makeRoom]

namespace Solver

variable {solver : Solver} {demands : List Demand} {phases : Assignment}

/-- Taking a variable into use when it is not yet. -/
theorem reserve_of_lt {literal : Literal} (fresh : solver.atomCount < literal.atom) :
    solver.reserve literal =
      { solver with
        atomCount := literal.atom
        trail := solver.trail.makeRoom literal.atom
        phases := fillUp (literal.atom + 1) solver.phases
        marks := fillUp (literal.atom + 1) solver.marks } := if_pos fresh

theorem reserve_of_le {literal : Literal} (known : literal.atom ≤ solver.atomCount) :
    solver.reserve literal = solver := if_neg (Nat.not_lt.mpr known)

theorem atomCount_reserve (literal : Literal) (solver : Solver) :
    (solver.reserve literal).atomCount = max solver.atomCount literal.atom := by
  rcases Nat.lt_or_ge solver.atomCount literal.atom with fresh | known
  · rw [reserve_of_lt fresh]
    exact (Nat.max_eq_right (Nat.le_of_lt fresh)).symm
  · rw [reserve_of_le known]
    exact (Nat.max_eq_left known).symm

/-- The variable of a literal is in use once it has been taken into use. -/
theorem uses_reserve {literal : Literal} (proper : literal.atom ≠ 0) (solver : Solver) :
    (solver.reserve literal).Uses literal :=
  ⟨proper, by
    rw [atomCount_reserve]
    exact Nat.le_max_right _ _⟩

/-- Variables stay in use. -/
theorem Uses.reserve {literal other : Literal} (uses : solver.Uses other) :
    (solver.reserve literal).Uses other :=
  ⟨uses.1, by
    rw [atomCount_reserve]
    exact Nat.le_trans uses.2 (Nat.le_max_left _ _)⟩

theorem constraints_reserve (literal : Literal) (solver : Solver) :
    (solver.reserve literal).constraints = solver.constraints := by
  unfold Solver.reserve
  split <;> rfl

theorem inconsistent_reserve (literal : Literal) (solver : Solver) :
    (solver.reserve literal).inconsistent = solver.inconsistent := by
  unfold Solver.reserve
  split <;> rfl

theorem preferred_reserve (literal : Literal) (solver : Solver) :
    (solver.reserve literal).preferred = solver.preferred := by
  unfold Solver.reserve
  split
  · exact funext fun atom => getElem?_fillUp _ _ _
  · rfl

@[simp] theorem record?_reserve (literal : Literal) (solver : Solver) (atom : Nat) :
    (solver.reserve literal).trail.record? atom = solver.trail.record? atom := by
  unfold Solver.reserve
  split
  · exact Trail.record?_makeRoom _ _ _
  · rfl

theorem level_reserve (literal : Literal) (solver : Solver) :
    (solver.reserve literal).trail.level = solver.trail.level := by
  unfold Solver.reserve
  split <;> rfl

/-- What forces a literal does not depend on the room of the trail. -/
theorem forces_makeRoom {trail : Trail} {atom place : Nat} {literal : Literal} {stored : Stored} :
    stored.Forces (trail.makeRoom atom) literal place ↔ stored.Forces trail literal place := by
  cases stored <;> simp only [Stored.Forces, trueBefore_makeRoom]

/-- **Taking a variable into use keeps the invariants.** -/
theorem Working.reserve (working : solver.Working) (literal : Literal) :
    (solver.reserve literal).Working := by
  rcases Nat.lt_or_ge solver.atomCount literal.atom with fresh | known
  · obtain ⟨⟨grounded, supported, settled⟩, attached, unmarked⟩ := working
    have wider : ∀ other, solver.Uses other → (solver.reserve literal).Uses other :=
      fun other uses => uses.reserve
    rw [reserve_of_lt fresh] at wider ⊢
    refine ⟨⟨⟨?_, ?_, ?_, ?_, ?_⟩, ⟨?_, ?_⟩, ⟨?_, ?_, ?_, ?_, ?_, ?_⟩⟩, ?_, ?_⟩
    · exact grounded.coherent.makeRoom _
    · intro other uses
      have below : other.atom ≤ literal.atom := uses.2
      dsimp only
      rw [Trail.room_makeRoom, size_fillUp, size_fillUp]
      omega
    · intro other isTrue
      rw [Trail.isTrue_makeRoom] at isTrue
      exact wider other (grounded.decided other isTrue)
    · exact fun id stored found other inside =>
        wider other (grounded.stored id stored found other inside)
    · exact grounded.distinct
    · intro atom entry id recorded given
      rw [Trail.record?_makeRoom] at recorded
      obtain ⟨stored, found, forces⟩ := supported.forced atom entry id recorded given
      exact ⟨stored, found, forces_makeRoom.mpr forces⟩
    · intro atom entry recorded given
      rw [Trail.record?_makeRoom] at recorded
      exact supported.free atom entry recorded given
    · exact settled.nonempty
    · rw [Trail.records_makeRoom]
      exact settled.unit
    · rw [Trail.records_makeRoom]
      exact settled.clause
    · intro id linear found
      dsimp only
      rw [trueBefore_makeRoom]
      exact settled.sum id linear found
    · intro atom entry recorded
      rw [Trail.record?_makeRoom] at recorded
      exact settled.fresh atom entry recorded
    · exact settled.within
    · exact attached.congr rfl fun _ => rfl
    · intro atom
      have same : (fillUp (literal.atom + 1) solver.marks)[atom]?.getD false = _ :=
        getElem?_fillUp _ _ _
      exact same.trans (unmarked atom)
  · rw [reserve_of_le known]
    exact working

/-! ### Faithful solvers -/

/-- **A solver that is ready for work says what was demanded.** -/
structure Ready (demands : List Demand) (phases : Assignment) (solver : Solver) : Prop where
  working : solver.Working
  closed : solver.trail.level = 0
  exact : ∀ assignment, solver.Satisfies assignment ↔ Meets demands assignment
  preferred : solver.preferred = phases
  consistent : solver.inconsistent = false

/-- **A solver at rest is faithful to the demands made of it.** -/
structure Faithful (demands : List Demand) (phases : Assignment) (solver : Solver) : Prop where
  contradictory : solver.inconsistent = true → ∀ assignment, ¬Meets demands assignment
  ready : solver.inconsistent = false → solver.Ready demands phases

theorem Ready.faithful (ready : solver.Ready demands phases) :
    solver.Faithful demands phases where
  contradictory inconsistent := by
    rw [ready.consistent] at inconsistent
    cases inconsistent
  ready _ := ready

theorem Faithful.of_contradictory (inconsistent : solver.inconsistent = true)
    (contradictory : ∀ assignment, ¬Meets demands assignment) :
    solver.Faithful demands phases where
  contradictory _ := contradictory
  ready consistent := by
    rw [inconsistent] at consistent
    cases consistent

/-- At level zero there is nothing to take back. -/
theorem Ready.backtrack (ready : solver.Ready demands phases) : solver.backtrack 0 = solver := by
  have closed : solver.trail.levelStarts[0]? = none :=
    Array.getElem?_eq_none_iff.mpr (Nat.le_of_eq ready.closed)
  unfold Solver.backtrack
  rw [Trail.revertTo_of_closed closed]
  dsimp only
  rw [Nat.min_eq_left ready.working.core.settled.within]

theorem Ready.reserve (ready : solver.Ready demands phases) (literal : Literal) :
    (solver.reserve literal).Ready demands phases where
  working := ready.working.reserve literal
  closed := (level_reserve literal solver).trans ready.closed
  exact assignment := (satisfies_congr (constraints_reserve literal solver) assignment).trans
    (ready.exact assignment)
  preferred := (preferred_reserve literal solver).trans ready.preferred
  consistent := (inconsistent_reserve literal solver).trans ready.consistent

/-- A solver without demands is ready. -/
theorem ready_empty : Solver.empty.Ready [] fun _ => false := by
  have nothing : ∀ atom entry, Trail.empty.record? atom ≠ some entry := by
    intro atom entry found
    simp [Trail.record?, Trail.empty] at found
  have unstored : ∀ (id : ConstraintId) (stored : Stored),
      Solver.empty.constraints[id]? ≠ some stored := fun id stored found => by
    simp [Solver.empty] at found
  have unused : ∀ literal, ¬Solver.empty.Uses literal :=
    fun literal uses => uses.1 (Nat.le_zero.mp uses.2)
  refine ⟨⟨⟨⟨Trail.coherent_empty, ?_, ?_, ?_, ?_⟩, ⟨?_, ?_⟩, ⟨?_, ?_, ?_, ?_, ?_, Nat.le_refl _⟩⟩,
    ⟨?_, ?_, ?_, ?_⟩, fun _ => rfl⟩, rfl, fun assignment => ⟨?_, ?_⟩, rfl, rfl⟩
  · exact fun literal uses => absurd uses (unused literal)
  · intro literal isTrue
    obtain ⟨entry, records⟩ := Trail.isTrue_iff.mp isTrue
    exact absurd records.1 (nothing _ entry)
  · exact fun id stored found => absurd found (unstored id stored)
  · exact fun id literals found => absurd found (unstored id _)
  · exact fun atom entry id found => absurd found (nothing atom entry)
  · exact fun atom entry found => absurd found (nothing atom entry)
  · exact fun id => unstored id _
  · exact fun id literal found => absurd found (unstored id _)
  · exact fun id first second rest found => absurd found (unstored id _)
  · exact fun id linear found => absurd found (unstored id _)
  · exact fun atom entry found => absurd found (nothing atom entry)
  · intro literal node inside
    simp [Solver.empty, WatchTable.empty, WatchTable.watching] at inside
  · exact fun id first second rest found => absurd found (unstored id _)
  · intro literal
    simp [Solver.empty, WatchTable.empty, WatchTable.watching]
  · intro id literal
    constructor
    · intro inside
      simp [Solver.empty, WatchTable.empty, WatchTable.mentioning] at inside
    · rintro ⟨linear, found, _⟩
      exact absurd found (unstored id _)
  · exact fun _ demand inside => absurd inside List.not_mem_nil
  · exact fun _ id stored found => absurd found (unstored id stored)

/-- Taking a variable into use changes no demand. -/
theorem Faithful.reserve (faithful : solver.Faithful demands phases) (literal : Literal) :
    (solver.reserve literal).Faithful demands phases := by
  constructor
  · rw [inconsistent_reserve]
    exact faithful.contradictory
  · rw [inconsistent_reserve]
    exact fun consistent => (faithful.ready consistent).reserve literal

theorem Faithful.newVariable (faithful : solver.Faithful demands phases) :
    solver.newVariable.2.Faithful demands phases := faithful.reserve _

/-- **Setting a phase changes what is preferred for one variable.** -/
theorem Faithful.setPhase (faithful : solver.Faithful demands phases) {literal : Literal}
    (proper : literal.atom ≠ 0) :
    (solver.setPhase literal).Faithful demands
      (fun atom => if atom = literal.atom then literal.positive else phases atom) := by
  have reserved := faithful.reserve literal
  have uses := uses_reserve proper solver
  unfold Solver.setPhase
  generalize solver.reserve literal = wider at reserved uses
  refine ⟨reserved.contradictory, fun consistent => ?_⟩
  obtain ⟨working, closed, exact', preferred, _⟩ := reserved.ready consistent
  have roomy := (working.core.grounded.roomy literal uses).2.2
  refine ⟨⟨working.core.congr rfl rfl rfl rfl Array.size_setIfInBounds,
    working.attached.congr rfl fun _ => rfl, working.unmarked⟩, closed, exact', ?_, consistent⟩
  funext atom
  show (wider.phases.setIfInBounds literal.atom literal.positive)[atom]?.getD false = _
  rw [Array.getElem?_setIfInBounds]
  by_cases same : atom = literal.atom
  · rw [if_pos same, if_pos same.symm, if_pos roomy, Option.getD_some]
  · rw [if_neg same, if_neg fun equal => same equal.symm, ← preferred]
    rfl

/-- Going back to level zero changes no demand. -/
theorem Faithful.backtrack (faithful : solver.Faithful demands phases) :
    (solver.backtrack 0).Faithful demands phases := by
  refine ⟨faithful.contradictory, fun consistent => ?_⟩
  have ready := faithful.ready consistent
  rw [ready.backtrack]
  exact ready

end Solver

end Loadout
