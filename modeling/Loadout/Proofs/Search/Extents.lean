/-
**Which variables a demand takes into use.**

How many variables a solver has in use decides how long its models are. A demand takes those of its
normal form into use (`Normal.extent`), and nothing that the solver has learned in between changes
that, as long as the demand is news to it:

* `atomCount_sift`: sifting a clause to its end looks at every literal;
* **`atomCount_addAtMost`**: when some assignment meets all demands but the new one, just the
  variables of its normal form come into use;
* `atomCount_solve`: a search without assumptions takes no variable into use.
-/

import Loadout.Proofs.Search.Histories

namespace Loadout

/-- The greatest variable of some literals. -/
def extentOf (literals : List Literal) : Nat :=
  literals.foldr (fun literal extent => max literal.atom extent) 0

/-- The greatest variable of a normal form. -/
def Normal.extent (form : Normal) : Nat :=
  extentOf form.literals

namespace Solver

variable {condition : Type} [Interruption condition] {demands : List Demand} {phases : Assignment}
  {solver : Solver}

/-- Taking variables into use raises the count to the greatest of them. -/
theorem atomCount_reserveAll (literals : List Literal) (solver : Solver) :
    (reserveAll literals solver).atomCount = max solver.atomCount (extentOf literals) := by
  induction literals generalizing solver with
  | nil => exact (Nat.max_zero _).symm
  | cons literal rest ih =>
    show (reserveAll rest (solver.reserve literal)).atomCount = _
    rw [ih, atomCount_reserve, Nat.max_assoc]
    rfl

/-- A clause of which something is kept was looked at to its end. -/
theorem atomCount_sift {literals : List Literal} (proper : ∀ literal ∈ literals, literal.atom ≠ 0)
    {kept clause : Clause} {solver : Solver}
    (sifted : (sift literals kept solver).1 = some clause) :
    (sift literals kept solver).2.atomCount = max solver.atomCount (extentOf literals) := by
  induction literals generalizing kept solver with
  | nil => exact (Nat.max_zero _).symm
  | cons literal rest ih =>
    obtain ⟨nonzero, later⟩ := List.forall_mem_cons.mp proper
    have reserved := atomCount_reserve literal solver
    unfold sift at sifted ⊢
    rw [if_neg (by simpa [Literal.isVoid] using nonzero)] at sifted ⊢
    generalize solver.reserve literal = wider at reserved sifted ⊢
    have further : ∀ kept, (sift rest kept wider).1 = some clause →
        (sift rest kept wider).2.atomCount =
          max solver.atomCount (extentOf (literal :: rest)) := by
      intro kept found
      rw [ih later found, reserved, Nat.max_assoc]
      rfl
    dsimp only at sifted ⊢
    split at sifted
    · cases sifted
    · exact further _ sifted
    · split at sifted
      · cases sifted
      · next fresh =>
        rw [if_neg fresh]
        split at sifted
        · next repeated =>
          rw [if_pos repeated]
          exact further _ sifted
        · next new =>
          rw [if_neg new]
          exact further _ sifted

/-- A clause that some assignment breaks, but no demand so far, is looked at to its end. -/
theorem atomCount_addClause (faithful : solver.Faithful demands phases) {literals : List Literal}
    (proper : ∀ literal ∈ literals, literal.atom ≠ 0) {assignment : Assignment}
    (meets : Meets demands assignment) (breaks : ¬HoldsProper assignment literals) :
    (solver.addClause literals).2.atomCount = max solver.atomCount (extentOf literals) := by
  have reverted := faithful.backtrack
  have same : (solver.backtrack 0).atomCount = solver.atomCount := rfl
  unfold addClause
  rw [← same]
  generalize solver.backtrack 0 = solver at reverted
  dsimp only
  have consistent : solver.inconsistent = false := by
    by_contra inconsistent
    rw [Bool.not_eq_false] at inconsistent
    exact reverted.contradictory inconsistent assignment meets
  have ready := reverted.ready consistent
  obtain ⟨_, sifted⟩ := sift_spec literals [] solver ready
    ⟨fun _ inside => absurd inside List.not_mem_nil,
      fun _ inside => absurd inside List.not_mem_nil, List.nodup_nil⟩
  have counted := fun clause => @atomCount_sift literals proper [] clause solver
  rw [consistent, if_neg Bool.false_ne_true]
  generalize sift literals [] solver = result at sifted counted
  obtain ⟨kept, sifter⟩ := result
  cases kept with
  | none =>
    rcases sifted assignment ((ready.exact assignment).mpr meets) with nothing | holds
    · cases nothing
    · exact absurd holds breaks
  | some clause =>
    have count := counted clause rfl
    match clause with
    | [] => exact count
    | [unit] => exact count
    | first :: second :: rest => exact count

/-- A bounded sum in normal form takes its variables into use. -/
theorem atomCount_addLinear (consistent : solver.inconsistent = false) (linear : Linear) :
    (solver.addLinear linear).2.atomCount =
      max solver.atomCount (extentOf (linear.terms.map Prod.snd)) := by
  have reserved := atomCount_reserveAll (linear.terms.map Prod.snd) (solver.backtrack 0)
  have consistent' : (solver.backtrack 0).inconsistent = false := consistent
  unfold addLinear
  dsimp only
  rw [consistent', if_neg Bool.false_ne_true]
  split
  all_goals
    next found =>
      have same := congrArg (fun result => result.2.atomCount) found
      dsimp only at same
      rw [atomCount_checkSum] at same
      exact same.symm.trans reserved

/-- **A demand that is news takes just the variables of its normal form into use.** -/
theorem atomCount_addAtMost (faithful : solver.Faithful demands phases) {constraint : AtMost}
    {assignment : Assignment} (meets : Meets demands assignment)
    (breaks : constraint.holds assignment = false) :
    (solver.addAtMost constraint).2.atomCount =
      max solver.atomCount constraint.normalize.extent := by
  have exact' := AtMost.holds_normalize assignment constraint
  have proper := constraint.normalize_atoms
  rw [breaks] at exact'
  unfold addAtMost
  generalize constraint.normalize = form at exact' proper
  cases form with
  | tautology => cases exact'
  | contradiction => exact (Nat.max_zero _).symm
  | clause literals =>
    refine atomCount_addClause faithful proper meets ?_
    rintro ⟨literal, inside, _, holds⟩
    have satisfied : Clause.holds assignment literals = true :=
      List.any_eq_true.mpr ⟨literal, inside, holds⟩
    rw [show Clause.holds assignment literals = false from exact'] at satisfied
    cases satisfied
  | linear sum =>
    refine atomCount_addLinear ?_ sum
    by_contra inconsistent
    rw [Bool.not_eq_false] at inconsistent
    exact faithful.contradictory inconsistent assignment meets

/-- **A search without assumptions takes no variable into use.** -/
theorem atomCount_solve (faithful : solver.Faithful demands phases) (stopping : condition) :
    (solver.solve [] stopping).2.2.atomCount = solver.atomCount := by
  cases inconsistent : solver.inconsistent with
  | true =>
    rw [solve_of_inconsistent inconsistent]
    rfl
  | false =>
    have ready := faithful.backtrack.ready inconsistent
    rw [solve_of_consistent inconsistent]
    obtain ⟨stable, _⟩ := rounds_spec ((solver.backtrack 0).roundLimit #[]) stopping
      (solver.backtrack 0) ready.working (ready.ordered #[]) ready.consistent
      fun literal inside => absurd inside (Array.not_mem_empty literal)
    exact stable.atomCount

end Solver

end Loadout
