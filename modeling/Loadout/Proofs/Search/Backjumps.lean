/-
**A conflict is left with a clause that asserts its first literal.**

In every state in which a search comes upon a conflict above level zero (`Draws`), the analysis
gives a clause and a level. `Solver.Asserting` says what is promised of them in that state, and
`Lesson.asserting` that it is kept; `Lesson.decides` says what becomes of the clause once the search
has gone back and learned it: the first literal is true and all the others are false.

**`conflict_teaches`** puts them together for the round of the search in which the conflict occurs.
-/

import Loadout.Proofs.Search.Fixpoints

namespace Loadout

namespace Solver

variable {solver : Solver} {first : Literal} {rest : List Literal} {target : Nat}

/-! ### Clauses that assert a literal -/

/-- **A clause that asserts its first literal** when the search goes back to a level. -/
structure Asserting (solver : Solver) (first : Literal) (rest : List Literal) (target : Nat) :
    Prop where
  /-- The clause follows from the constraints, whatever is assumed. -/
  implied : ∀ assignment, solver.Satisfies assignment →
    Clause.holds assignment (first :: rest) = true
  distinct : ((first :: rest).map Literal.atom).Nodup
  isFalse : ∀ literal ∈ first :: rest, solver.trail.isFalse literal = true
  above : ∀ literal ∈ first :: rest, ∃ level, solver.trail.level? literal = some level ∧ 0 < level
  /-- Just the first literal belongs to the present level. -/
  present : ∀ literal ∈ first :: rest,
    solver.trail.level? literal = some solver.trail.level ↔ literal = first
  /-- The second literal has the highest level among the others, which is the one to go back to. -/
  second : ∀ second tail, rest = second :: tail → solver.trail.level? second = some target ∧
    ∀ literal ∈ rest, ∃ level, solver.trail.level? literal = some level ∧ level ≤ target
  unit : rest = [] → target = 0
  below : target < solver.trail.level

/-- A lesson without facts asserts its first literal. -/
theorem Lesson.asserting (lesson : Lesson solver first rest target)
    (above : ∀ literal ∈ first :: rest, ∃ entry,
      solver.trail.Records (-literal) entry ∧ 0 < entry.level) :
    solver.Asserting first rest target where
  implied := lesson.implied
  distinct := lesson.distinct
  isFalse literal inside := by
    obtain ⟨entry, records, _⟩ := above literal inside
    exact Trail.isFalse_iff.mpr ⟨entry, records⟩
  above literal inside := by
    obtain ⟨entry, records, positive⟩ := above literal inside
    exact ⟨entry.level, level?_of_isFalse records, positive⟩
  present literal inside := by
    constructor
    · intro level
      refine (List.mem_cons.mp inside).resolve_right fun later => ?_
      obtain ⟨entry, records, low⟩ := lesson.past literal later
      have below := lesson.below
      rw [level?_of_isFalse records] at level
      have high := Option.some.inj level
      omega
    · rintro rfl
      obtain ⟨entry, records, level⟩ := lesson.present
      rw [level?_of_isFalse records, level]
  second second tail shape := by
    obtain ⟨entry, records, level⟩ := lesson.runnerUp second tail shape
    refine ⟨by rw [level?_of_isFalse records, level], fun literal inside => ?_⟩
    obtain ⟨entry, records, low⟩ := lesson.past literal inside
    exact ⟨entry.level, level?_of_isFalse records, low⟩
  unit := lesson.unit
  below := lesson.below

/-- **A lesson decides its literals**: once it is learned at the level to go back to, the first one
is true and the others are false. -/
theorem Lesson.decides (coherent : solver.trail.Coherent)
    (lesson : Lesson solver first rest target) :
    ((solver.backtrack target).learn (first :: rest)).trail.isTrue first = true ∧
      ∀ literal ∈ rest,
        ((solver.backtrack target).learn (first :: rest)).trail.isFalse literal = true := by
  have undecided := lesson.undecided coherent
  have learned := learned_learn (solver.backtrack target) first rest
  rw [learned.trail]
  constructor
  · rw [Trail.isTrue_iff]
    refine ⟨(solver.backtrack target).trail.nextEntry first
      (some (solver.backtrack target).constraints.size), ?_, rfl⟩
    rw [Trail.record?_push _ undecided, if_pos rfl]
  · intro literal inside
    obtain ⟨entry, records, low⟩ := lesson.past literal inside
    have kept : (solver.backtrack target).trail.Records (-literal) entry :=
      coherent.records_revertTo.mpr ⟨records, low⟩
    exact Trail.isFalse_iff.mpr ⟨entry, kept.push first _⟩

/-! ### Conflicts of a search -/

/-- **A conflict above level zero teaches a clause that asserts its first literal.** In every state
in which a search comes upon one: the analysis gives such a clause with the level to go back to and
leaves no mark, and the round ends in the state in which the search has gone back and learned the
clause, of which the first literal is true there and all the others are false. -/
theorem conflict_teaches {condition : Type} [Interruption condition] {assumptions : List Literal}
    {stopping : condition} (draws : Draws assumptions stopping solver) {conflict : ConstraintId}
    (hit : solver.propagate.1 = some conflict) (above : 0 < solver.propagate.2.trail.level) :
    ∃ first rest target cleared,
      solver.propagate.2.countConflict.analyze conflict = (first :: rest, target, cleared) ∧
      solver.propagate.2.Asserting first rest target ∧ cleared.Unmarked ∧
      solver.round assumptions.toArray stopping =
        (.next, stopping, (cleared.backtrack target).learn (first :: rest)) ∧
      ((cleared.backtrack target).learn (first :: rest)).trail.isTrue first = true ∧
      ∀ literal ∈ rest,
        ((cleared.backtrack target).learn (first :: rest)).trail.isFalse literal = true := by
  have working := draws.drawing.working
  obtain ⟨advance, _, exhausted⟩ := propagate_spec working.core working.attached
  rw [hit] at exhausted
  obtain ⟨done, _, _, core, conflicting⟩ := exhausted
  have unmarked : solver.propagate.2.countConflict.Unmarked := by
    intro atom
    show solver.propagate.2.marks[atom]?.getD false = false
    rw [advance.marks]
    exact working.unmarked atom
  have played : solver.round assumptions.toArray stopping =
      ((solver.propagate.2.afterConflict conflict).1, stopping,
        (solver.propagate.2.afterConflict conflict).2) := by
    have split : solver.propagate = (some conflict, solver.propagate.2) := by rw [← hit]
    unfold round
    rw [split]
  rw [afterConflict_open (Nat.ne_of_gt above)] at played
  generalize solver.propagate.2 = middle at above core conflicting unmarked played
  have counted : middle.countConflict.Core done := core.congr rfl rfl rfl rfl rfl
  have conflicting' : middle.countConflict.Conflicting conflict :=
    ⟨conflicting.isFalse, fun assignment satisfied =>
      conflicting.implied assignment satisfied, conflicting.late⟩
  obtain ⟨first, rest, shape, lesson, remarked, cleared⟩ :=
    analyze_spec counted.grounded counted.supported above unmarked conflicting'
  have facts := analyze_above counted.grounded counted.supported above unmarked conflicting'
  rw [shape] at facts played
  obtain ⟨isTrue, isFalse⟩ := (remarked.lesson lesson).decides
    (remarked.core counted).grounded.coherent
  -- counting the conflict has no part in what is learned from it
  have lesson' : Lesson middle first rest (middle.countConflict.analyze conflict).2.1 :=
    ⟨lesson.implied, lesson.distinct, lesson.below, lesson.present, lesson.past, lesson.runnerUp,
      lesson.unit⟩
  exact ⟨first, rest, _, _, by rw [← shape], lesson'.asserting facts, cleared, played, isTrue,
    isFalse⟩

/-- A solver that was asked for one or two, for a sum that has no room for three beside two and
four, and for three or one wherever five is true or false. -/
def cornered : Solver :=
  ((((Solver.empty.addClause [⟨1, true⟩, ⟨2, true⟩]).2.addAtMost
    ⟨[(2, ⟨2, true⟩), (2, ⟨3, true⟩), (1, ⟨4, true⟩)], 3⟩).2.addClause
      [⟨3, true⟩, ⟨1, true⟩, ⟨5, true⟩]).2.addClause [⟨3, true⟩, ⟨5, false⟩]).2

/-- The state in which four was assumed and one is false. -/
def corneredLate : Solver :=
  ((cornered.round #[⟨4, true⟩] (⟨⟩ : Never)).2.2.round #[⟨4, true⟩] (⟨⟩ : Never)).2.2

/-- There two is forced, by which the sum forces three to be false, and no value is left for five.
What is learned is that one is true or four is not. -/
theorem conflict_teaches_of_cornered :
    corneredLate.propagate.1 = some 3 ∧ corneredLate.propagate.2.trail.level = 2 ∧
    ∃ target cleared, corneredLate.propagate.2.countConflict.analyze 3 =
        ([⟨1, true⟩, ⟨4, false⟩], target, cleared) ∧
      corneredLate.propagate.2.Asserting ⟨1, true⟩ [⟨4, false⟩] target ∧ cleared.Unmarked ∧
      ((cleared.backtrack target).learn [⟨1, true⟩, ⟨4, false⟩]).trail.isTrue ⟨1, true⟩ = true ∧
      ((cleared.backtrack target).learn [⟨1, true⟩, ⟨4, false⟩]).trail.isFalse ⟨4, false⟩ =
        true := by
  have reached : Reached [.clause [⟨1, true⟩, ⟨2, true⟩],
      .atMost ⟨[(2, ⟨2, true⟩), (2, ⟨3, true⟩), (1, ⟨4, true⟩)], 3⟩,
      .clause [⟨3, true⟩, ⟨1, true⟩, ⟨5, true⟩], .clause [⟨3, true⟩, ⟨5, false⟩]]
      (fun _ => false) cornered :=
    .addClause _ (.addClause _ (.addAtMost _ (.addClause _ .fresh)))
  have start : Draws [⟨4, true⟩] (⟨⟩ : Never) cornered :=
    .first reached (by decide +kernel) (by decide)
  have draws : Draws [⟨4, true⟩] (⟨⟩ : Never) corneredLate :=
    .next (.next start (by decide +kernel)) (by decide +kernel)
  have hit : corneredLate.propagate.1 = some 3 := by decide +kernel
  have level : corneredLate.propagate.2.trail.level = 2 := by decide +kernel
  obtain ⟨first, rest, target, cleared, learned, asserting, unmarked, _, isTrue, isFalse⟩ :=
    conflict_teaches draws hit (by rw [level]; exact Nat.two_pos)
  have shape : first :: rest = [⟨1, true⟩, ⟨4, false⟩] :=
    (congrArg Prod.fst learned).symm.trans (by decide +kernel)
  obtain ⟨rfl, rfl⟩ := List.cons.inj shape
  exact ⟨hit, level, target, cleared, learned, asserting, unmarked, isTrue,
    isFalse _ List.mem_cons_self⟩

end Solver

end Loadout
