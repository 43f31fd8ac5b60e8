/-
**Marks on variables, and the literals by which a constraint explains.**

While a conflict is analysed, only marks change (`Solver.Remarked`). The literals that a constraint
gives as its reason for a forced literal are all false and were decided earlier, and the constraint
says that one of them or the forced literal holds (`reasonLiterals_spec`).
-/

import Loadout.Proofs.Search.Consequences

namespace Loadout

namespace Solver

variable {solver : Solver}

/-! ### Marks -/

/-- Two solvers differ in their marks at most. -/
structure Remarked (old new : Solver) : Prop where
  same : new = { old with marks := new.marks }
  size : new.marks.size = old.marks.size

namespace Remarked

theorem refl (solver : Solver) : Remarked solver solver := ⟨rfl, rfl⟩

theorem trans {first second third : Solver} (one : Remarked first second)
    (two : Remarked second third) : Remarked first third := by
  refine ⟨?_, two.size.trans one.size⟩
  have same := two.same
  rw [one.same] at same
  exact same

theorem mark (solver : Solver) (atom : Nat) (value : Bool) :
    Remarked solver (solver.mark atom value) :=
  ⟨rfl, Array.size_setIfInBounds⟩

variable {old new : Solver} (remarked : Remarked old new)
include remarked

theorem trail : new.trail = old.trail := by rw [remarked.same]

theorem constraints : new.constraints = old.constraints := by rw [remarked.same]

theorem atomCount : new.atomCount = old.atomCount := by rw [remarked.same]

theorem phases : new.phases = old.phases := by rw [remarked.same]

theorem watches : new.watches = old.watches := by rw [remarked.same]

theorem frontier : new.frontier = old.frontier := by rw [remarked.same]

theorem inconsistent : new.inconsistent = old.inconsistent := by rw [remarked.same]

theorem core {done : Nat} (core : old.Core done) : new.Core done :=
  core.congr remarked.constraints remarked.trail remarked.atomCount remarked.size
    (congrArg Array.size remarked.phases)

theorem reasonLiterals (id : ConstraintId) (forced : Literal) :
    new.reasonLiterals id forced = old.reasonLiterals id forced := by
  unfold Solver.reasonLiterals
  rw [remarked.constraints, remarked.trail]

end Remarked

/-- Setting a mark changes the mark of one variable. -/
theorem isMarked_mark {atom : Nat} (roomy : atom < solver.marks.size) (value : Bool)
    (other : Nat) :
    (solver.mark atom value).isMarked other =
      if other = atom then value else solver.isMarked other := by
  unfold isMarked mark
  rw [Array.getElem?_setIfInBounds]
  by_cases same : other = atom
  · rw [if_pos same, if_pos same.symm, if_pos roomy, Option.getD_some]
  · rw [if_neg same, if_neg fun equal => same equal.symm]

/-- No variable is marked. -/
def Unmarked (solver : Solver) : Prop :=
  ∀ atom, solver.isMarked atom = false

/-- Clearing a mark clears no other one, in whatever room. -/
theorem isMarked_clear (atom other : Nat) :
    (solver.mark atom false).isMarked other =
      if other = atom then false else solver.isMarked other := by
  unfold isMarked mark
  rw [Array.getElem?_setIfInBounds]
  by_cases same : other = atom
  · rw [if_pos same, if_pos same.symm]
    split <;> rfl
  · rw [if_neg same, if_neg fun equal => same equal.symm]

/-- The variable of a decided literal has room for its mark. -/
theorem Grounded.markable (grounded : solver.Grounded) {literal : Literal} {entry : Entry}
    (found : solver.trail.record? literal.atom = some entry) :
    literal.atom < solver.marks.size := by
  have uses := grounded.decided ⟨literal.atom, entry.positive⟩
    (Trail.isTrue_iff.mpr ⟨entry, found, rfl⟩)
  exact (grounded.roomy _ uses).2.1

/-- Clearing the marks of some literals. -/
def clearMarks (literals : List Literal) (solver : Solver) : Solver :=
  literals.foldl (fun solver literal => solver.mark literal.atom false) solver

theorem remarked_clearMarks (literals : List Literal) (solver : Solver) :
    Remarked solver (clearMarks literals solver) := by
  induction literals generalizing solver with
  | nil => exact Remarked.refl solver
  | cons literal rest ih => exact (Remarked.mark solver literal.atom false).trans (ih _)

/-- The marks that are cleared are those of the literals. -/
theorem isMarked_clearMarks (literals : List Literal) (solver : Solver) (atom : Nat) :
    (clearMarks literals solver).isMarked atom =
      if atom ∈ literals.map Literal.atom then false else solver.isMarked atom := by
  induction literals generalizing solver with
  | nil => rfl
  | cons literal rest ih =>
    show (clearMarks rest (solver.mark literal.atom false)).isMarked atom = _
    rw [ih, isMarked_clear, List.map_cons]
    by_cases later : atom ∈ rest.map Literal.atom
    · rw [if_pos later, if_pos (List.mem_cons_of_mem _ later)]
    · rw [if_neg later]
      by_cases here : atom = literal.atom
      · rw [if_pos here, if_pos (by rw [here]; exact List.mem_cons_self)]
      · rw [if_neg here, if_neg fun inside => by
          rcases List.mem_cons.mp inside with equal | inside
          · exact here equal
          · exact later inside]

/-! ### Reasons -/

/-- **A reason gives false literals that were decided earlier**, and its constraint says that one of
them or the forced literal holds. -/
theorem reasonLiterals_spec {id : ConstraintId} {stored : Stored}
    (found : solver.constraints[id]? = some stored) {literal : Literal} {entry : Entry}
    (records : solver.trail.Records literal entry)
    (forces : stored.Forces solver.trail literal entry.position) :
    (∀ other ∈ solver.reasonLiterals id literal, ∃ record,
      solver.trail.Records (-other) record ∧ record.position < entry.position) ∧
    ∀ assignment, solver.Satisfies assignment → literal.holds assignment = false →
      ∃ other ∈ solver.reasonLiterals id literal, other.holds assignment = true := by
  cases stored with
  | clause literals =>
    have same : solver.reasonLiterals id literal = literals.filter (· != literal) := by
      unfold reasonLiterals
      rw [found]
    rw [same]
    refine ⟨fun other inside => ?_, fun assignment satisfied fails => ?_⟩
    · obtain ⟨member, different⟩ := List.mem_filter.mp inside
      exact trueBefore_iff.mp (forces.2 other member (by simpa using different))
    · obtain ⟨other, member, holds⟩ := List.any_eq_true.mp (satisfied id _ found)
      refine ⟨other, List.mem_filter.mpr ⟨member, ?_⟩, holds⟩
      simp only [bne_iff_ne]
      intro equal
      rw [equal, fails] at holds
      cases holds
  | sum linear =>
    have place : solver.trail.position? literal = some entry.position := by
      unfold Trail.position?
      rw [records.1]
      rfl
    have same : solver.reasonLiterals id literal = (linear.terms.filter fun term =>
        trueBefore solver.trail (some entry.position) term.2).map fun term => -term.2 := by
      unfold reasonLiterals
      rw [found, place]
    rw [same]
    refine ⟨fun other inside => ?_, fun assignment satisfied fails => ?_⟩
    · obtain ⟨term, member, rfl⟩ := List.mem_map.mp inside
      rw [Literal.neg_neg]
      exact trueBefore_iff.mp (List.mem_filter.mp member).2
    · by_contra none'
      -- All earlier true terms would hold, which forces the literal.
      obtain ⟨uncounted, weight, member, exceeds⟩ := forces
      have within : passedWeight (Literal.holds assignment) linear.terms ≤ linear.bound :=
        of_decide_eq_true (satisfied id _ found)
      have opposite : (-literal).holds assignment = true := by
        rw [Literal.holds_neg, fails]
        rfl
      have hold : ∀ term ∈ linear.terms,
          trueBefore solver.trail (some entry.position) term.2 = true →
            term.2.holds assignment = true := by
        intro term inside before
        by_contra untrue
        refine none' ⟨-term.2, List.mem_map.mpr
          ⟨term, List.mem_filter.mpr ⟨inside, before⟩, rfl⟩, ?_⟩
        rw [Literal.holds_neg]
        simpa using untrue
      have below := passedWeight_add_le (trueBefore solver.trail (some entry.position))
        (Literal.holds assignment) member uncounted opposite hold
      dsimp only at below
      omega

end Solver

end Loadout
