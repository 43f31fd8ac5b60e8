/-
**A conflict teaches a clause that follows from the constraints.**

The clause learned consists of the opposite of the literal at which the walk back ends and of the
lower literals gathered, the one with the highest level first.

* `exists_highest`, `swapFirst_head`: the second literal of the clause has the level to go back to;
* `Gathered.lesson`: the clause follows, and only its first literal belongs to the present level;
* **`analyze_spec`**: the analysis of a conflict teaches such a clause (`Lesson`), and leaves no
  marks; `analyze_above`: no literal of level zero is in it.
-/

import Loadout.Proofs.Search.Learning

namespace Loadout

namespace Solver

variable {solver : Solver} {trail : Trail} {lower : Array Literal}

/-! ### The level to go back to -/

/-- The level of a decided literal. -/
theorem level?_of_isFalse {literal : Literal} {entry : Entry}
    (records : trail.Records (-literal) entry) : trail.level? literal = some entry.level := by
  unfold Trail.level?
  rw [show trail.record? literal.atom = some entry from records.1]
  rfl

/-- One step of the search for the highest level. -/
def highestStep (trail : Trail) (best : Nat × Nat × Nat) (literal : Literal) : Nat × Nat × Nat :=
  if best.1 < (trail.level? literal).getD 0 then
    ((trail.level? literal).getD 0, best.2.2, best.2.2 + 1)
  else (best.1, best.2.1, best.2.2 + 1)

theorem highestLevel_eq (trail : Trail) (literals : List Literal) :
    highestLevel trail literals =
      ((literals.foldl (highestStep trail) (0, 0, 0)).1,
        (literals.foldl (highestStep trail) (0, 0, 0)).2.1) := rfl

/-- The best level found is that of a literal met on the way, or the one at the start. -/
theorem foldl_highestStep (trail : Trail) (literals : List Literal) (best : Nat × Nat × Nat) :
    best.1 ≤ (literals.foldl (highestStep trail) best).1 ∧
      (∀ literal ∈ literals, (trail.level? literal).getD 0 ≤
        (literals.foldl (highestStep trail) best).1) ∧
      ((literals.foldl (highestStep trail) best).1 = best.1 ∧
          (literals.foldl (highestStep trail) best).2.1 = best.2.1 ∨
        ∃ (place : Nat) (literal : Literal), literals[place]? = some literal ∧
          (trail.level? literal).getD 0 = (literals.foldl (highestStep trail) best).1 ∧
          (literals.foldl (highestStep trail) best).2.1 = best.2.2 + place) := by
  induction literals generalizing best with
  | nil => exact ⟨Nat.le_refl _, fun _ inside => absurd inside List.not_mem_nil,
      Or.inl ⟨rfl, rfl⟩⟩
  | cons head rest ih =>
    rw [List.foldl_cons]
    obtain ⟨rises, covers, found⟩ := ih (highestStep trail best head)
    have step : best.1 ≤ (highestStep trail best head).1 ∧
        (trail.level? head).getD 0 ≤ (highestStep trail best head).1 ∧
        (highestStep trail best head).2.2 = best.2.2 + 1 := by
      unfold highestStep
      split
      · next better => exact ⟨Nat.le_of_lt better, Nat.le_refl _, rfl⟩
      · next worse => exact ⟨Nat.le_refl _, Nat.le_of_not_lt worse, rfl⟩
    refine ⟨Nat.le_trans step.1 rises, fun literal inside => ?_, ?_⟩
    · rcases List.mem_cons.mp inside with rfl | later
      · exact Nat.le_trans step.2.1 rises
      · exact covers literal later
    · rcases found with ⟨level, here⟩ | ⟨place, literal, there, level, here⟩
      · by_cases better : best.1 < (trail.level? head).getD 0
        · have head' : highestStep trail best head =
              ((trail.level? head).getD 0, best.2.2, best.2.2 + 1) := if_pos better
          rw [head'] at level here ⊢
          exact Or.inr ⟨0, head, rfl, level.symm, here⟩
        · have head' : highestStep trail best head = (best.1, best.2.1, best.2.2 + 1) :=
            if_neg better
          rw [head'] at level here ⊢
          exact Or.inl ⟨level, here⟩
      · refine Or.inr ⟨place + 1, literal, there, level, ?_⟩
        rw [here, step.2.2]
        omega

/-- No literal has a level above the highest. -/
theorem le_highestLevel {literal : Literal} (inside : literal ∈ lower) {entry : Entry}
    (records : trail.Records (-literal) entry) :
    entry.level ≤ (highestLevel trail lower.toList).1 := by
  obtain ⟨_, covers, _⟩ := foldl_highestStep trail lower.toList (0, 0, 0)
  have below := covers literal (Array.mem_toList_iff.mpr inside)
  rw [level?_of_isFalse records] at below
  exact below

/-- **The highest level is that of the literal at the place found**, if there is one above zero. -/
theorem exists_highest
    (past : ∀ literal ∈ lower, ∃ entry, trail.Records (-literal) entry ∧ 0 < entry.level)
    (nonempty : 0 < lower.size) :
    ∃ literal, lower[(highestLevel trail lower.toList).2]? = some literal ∧
      ∃ entry, trail.Records (-literal) entry ∧
        entry.level = (highestLevel trail lower.toList).1 := by
  obtain ⟨_, _, found⟩ := foldl_highestStep trail lower.toList (0, 0, 0)
  rw [highestLevel_eq]
  rcases found with ⟨none', _⟩ | ⟨place, literal, there, level, here⟩
  · obtain ⟨entry, records, above⟩ := past lower[0] (Array.getElem_mem nonempty)
    have below := le_highestLevel (Array.getElem_mem nonempty) records
    rw [highestLevel_eq, none'] at below
    exact absurd below (Nat.not_le.mpr above)
  · rw [Array.getElem?_toList] at there
    obtain ⟨entry, records, _⟩ := past literal (Array.mem_of_getElem? there)
    rw [level?_of_isFalse records] at level
    exact ⟨literal, by rw [here, Nat.zero_add]; exact there, entry, records, level⟩

/-- All literals below a level have a highest level below it. -/
theorem highestLevel_lt {bound : Nat} (positive : 0 < bound)
    (past : ∀ literal ∈ lower, ∃ entry, trail.Records (-literal) entry ∧
      0 < entry.level ∧ entry.level < bound) : (highestLevel trail lower.toList).1 < bound := by
  rcases Nat.eq_zero_or_pos lower.size with empty | nonempty
  · rw [Array.eq_empty_of_size_eq_zero empty]
    exact positive
  · obtain ⟨literal, there, entry, records, level⟩ := exists_highest (fun literal inside => by
      obtain ⟨entry, records, above, _⟩ := past literal inside
      exact ⟨entry, records, above⟩) nonempty
    obtain ⟨entry', records', _, below⟩ := past literal (Array.mem_of_getElem? there)
    rw [records.unique records'] at level
    omega

/-! ### The literal that is put first -/

theorem swapFirst_perm (lower : Array Literal) (place : Nat) :
    (lower.swapIfInBounds 0 place).toList.Perm lower.toList := by
  unfold Array.swapIfInBounds
  split
  · split
    · exact (Array.swap_perm _ _).toList
    · exact List.Perm.refl _
  · exact List.Perm.refl _

/-- The literal at a place comes first once it is swapped with the first one. -/
theorem swapFirst_head {place : Nat} {literal second : Literal} {tail : List Literal}
    (there : lower[place]? = some literal)
    (shape : (lower.swapIfInBounds 0 place).toList = second :: tail) : second = literal := by
  obtain ⟨inside, equal⟩ := Array.getElem?_eq_some_iff.mp there
  have first := congrArg (·[0]?) shape
  simp only [Array.getElem?_toList, List.getElem?_cons_zero] at first
  unfold Array.swapIfInBounds at first
  rw [dif_pos (Nat.zero_lt_of_lt inside), dif_pos inside, Array.getElem?_swap] at first
  by_cases zero : place = 0
  · rw [if_pos zero] at first
    rw [← Option.some.inj first, ← equal]
    congr 1
    exact zero.symm
  · rw [if_neg zero, if_pos rfl, equal] at first
    exact (Option.some.inj first).symm

/-! ### The learned clause -/

/-- **What a conflict teaches**: a clause that follows from the constraints, of which only the first
literal belongs to the present level, together with the level at which the others are false. -/
structure Lesson (solver : Solver) (first : Literal) (rest : List Literal) (target : Nat) :
    Prop where
  implied : ∀ assignment, solver.Satisfies assignment →
    Clause.holds assignment (first :: rest) = true
  distinct : ((first :: rest).map Literal.atom).Nodup
  below : target < solver.trail.level
  present : ∃ entry, solver.trail.Records (-first) entry ∧ entry.level = solver.trail.level
  past : ∀ literal ∈ rest, ∃ entry, solver.trail.Records (-literal) entry ∧ entry.level ≤ target
  /-- The second literal has the level to go back to. -/
  runnerUp : ∀ second tail, rest = second :: tail →
    ∃ entry, solver.trail.Records (-second) entry ∧ entry.level = target
  /-- A single literal is learned at level zero. -/
  unit : rest = [] → target = 0

namespace Gathered

variable {gathering : Gathering} {last : Literal}

/-- Nothing is gathered before a conflict is taken in. -/
theorem start (unmarked : solver.Unmarked) {literals : List Literal}
    (implied : ∀ assignment, solver.Satisfies assignment →
      ∃ literal ∈ literals, literal.holds assignment = true) :
    Gathered solver literals [] ⟨solver, 0, #[]⟩ where
  remarked := Remarked.refl solver
  present _ inside := absurd inside List.not_mem_nil
  past _ inside := absurd inside (Array.not_mem_empty _)
  marked atom := by
    rw [unmarked atom]
    simp
  openedOnce := List.nodup_nil
  lowerOnce := List.nodup_nil
  pending := rfl
  implied assignment satisfied := Or.inl (implied assignment satisfied)

/-- No lower literal has the variable of one of the present level. -/
theorem notLower (gathered : Gathered solver [-last] [] gathering) {entry : Entry}
    (recorded : solver.trail.Records last entry) (level : entry.level = solver.trail.level) :
    last.atom ∉ gathering.lower.toList.map Literal.atom := by
  intro twice
  obtain ⟨literal, inside, same⟩ := List.mem_map.mp twice
  obtain ⟨entry, records, _, lower⟩ := gathered.past literal (Array.mem_toList_iff.mp inside)
  have found := records.1
  rw [Literal.neg_atom, same, recorded.1] at found
  cases found
  omega

/-- The opposite of the last literal and the lower literals follow as a clause, in any order. -/
theorem holds (gathered : Gathered solver [-last] [] gathering) {rest : List Literal}
    (perm : rest.Perm gathering.lower.toList) {assignment : Assignment}
    (satisfied : solver.Satisfies assignment) :
    Clause.holds assignment (-last :: rest) = true := by
  rcases gathered.implied assignment satisfied with ⟨literal, inside, holds⟩ | side
  · rw [List.mem_singleton.mp inside] at holds
    exact List.any_eq_true.mpr ⟨-last, List.mem_cons_self, holds⟩
  · rcases side with ⟨_, impossible, _⟩ | ⟨literal, inside, holds⟩
    · cases impossible
    · exact List.any_eq_true.mpr ⟨literal, List.mem_cons_of_mem _
        (perm.mem_iff.mpr (Array.mem_toList_iff.mpr inside)), holds⟩

/-- **What is gathered when the walk has ended is a lesson.** -/
theorem lesson (gathered : Gathered solver [-last] [] gathering) {entry : Entry}
    (recorded : solver.trail.Records last entry) (level : entry.level = solver.trail.level)
    (above : 0 < solver.trail.level) :
    Lesson solver (-last)
      (gathering.lower.swapIfInBounds 0
        (highestLevel solver.trail gathering.lower.toList).2).toList
      (highestLevel solver.trail gathering.lower.toList).1 := by
  have perm := swapFirst_perm gathering.lower (highestLevel solver.trail gathering.lower.toList).2
  exact {
    implied := fun assignment satisfied => gathered.holds perm satisfied
    distinct := by
      rw [List.map_cons, List.nodup_cons, (perm.map Literal.atom).nodup_iff,
        (perm.map Literal.atom).mem_iff]
      exact ⟨gathered.notLower recorded level, gathered.lowerOnce⟩
    below := highestLevel_lt above gathered.past
    present := ⟨entry, by rw [Literal.neg_neg]; exact recorded, level⟩
    past := fun literal inside => by
      have inside' := Array.mem_toList_iff.mp (perm.mem_iff.mp inside)
      obtain ⟨entry, records, _⟩ := gathered.past literal inside'
      exact ⟨entry, records, le_highestLevel inside' records⟩
    runnerUp := fun second tail shape => by
      have nonempty : 0 < gathering.lower.size := by
        rw [← Array.length_toList, ← perm.length_eq, shape]
        exact Nat.succ_pos _
      obtain ⟨literal, there, entry, records, same⟩ := exists_highest (fun literal inside => by
        obtain ⟨entry, records, above, _⟩ := gathered.past literal inside
        exact ⟨entry, records, above⟩) nonempty
      rw [swapFirst_head there shape]
      exact ⟨entry, records, same⟩
    unit := fun shape => by
      rw [shape] at perm
      rw [perm.nil_eq.symm]
      rfl }

/-- Without the marks of the lower literals, no mark is left. -/
theorem unmarked (gathered : Gathered solver [-last] [] gathering) :
    (clearMarks gathering.lower.toList gathering.solver).Unmarked := by
  intro atom
  rw [isMarked_clearMarks]
  split
  · rfl
  · next outside =>
    rw [← Bool.not_eq_true, gathered.marked]
    rintro (impossible | inside)
    · cases impossible
    · exact outside inside

end Gathered

theorem analyze_eq (conflict : ConstraintId) :
    solver.analyze conflict =
      (let walk := walkBack solver.trail.level solver.trail.length
          (Gathering.absorbAll solver.trail.level (solver.conflictLiterals conflict)
            ⟨solver, 0, #[]⟩)
        let cleared := clearMarks walk.2.lower.toList walk.2.solver
        let highest := highestLevel cleared.trail walk.2.lower.toList
        (-walk.1 :: (walk.2.lower.swapIfInBounds 0 highest.2).toList, highest.1, cleared)) := by
  unfold analyze clearMarks
  simp only [Array.foldl_toList]

/-- The walk back from a conflict above level zero ends at a literal of the present level, and what
it has gathered is learned. -/
theorem analyze_gathered (grounded : solver.Grounded) (supported : solver.Supported)
    (above : 0 < solver.trail.level) (unmarked : solver.Unmarked) {conflict : ConstraintId}
    (conflicting : solver.Conflicting conflict) :
    ∃ last entry gathering, solver.trail.Records last entry ∧ entry.level = solver.trail.level ∧
      Gathered solver [-last] [] gathering ∧
      solver.analyze conflict =
        (-last :: (gathering.lower.swapIfInBounds 0
            (highestLevel solver.trail gathering.lower.toList).2).toList,
          (highestLevel solver.trail gathering.lower.toList).1,
          clearMarks gathering.lower.toList gathering.solver) := by
  obtain ⟨opened, gathered, _, present⟩ := (Gathered.start unmarked conflicting.implied).absorbAll
    grounded supported above _ _ _ conflicting.isFalse
  rw [List.append_nil] at gathered present
  obtain ⟨late, inside, entry, records, level⟩ := conflicting.late
  obtain ⟨⟨record, recorded, level'⟩, walked⟩ := walkBack_spec grounded supported above
    solver.trail.length _ opened gathered
    (fun literal _ entry records => grounded.coherent.position_lt records.1)
    (List.ne_nil_of_mem (present late inside entry records level))
  refine ⟨_, record, _, recorded, level', walked, ?_⟩
  rw [analyze_eq]
  dsimp only
  rw [(walked.remarked.trans (remarked_clearMarks _ _)).trail]

/-- **The analysis of a conflict above level zero teaches a clause** and leaves no marks. -/
theorem analyze_spec (grounded : solver.Grounded) (supported : solver.Supported)
    (above : 0 < solver.trail.level) (unmarked : solver.Unmarked) {conflict : ConstraintId}
    (conflicting : solver.Conflicting conflict) :
    ∃ first rest, (solver.analyze conflict).1 = first :: rest ∧
      Lesson solver first rest (solver.analyze conflict).2.1 ∧
      Remarked solver (solver.analyze conflict).2.2 ∧ (solver.analyze conflict).2.2.Unmarked := by
  obtain ⟨last, entry, gathering, recorded, level, gathered, equal⟩ :=
    analyze_gathered grounded supported above unmarked conflicting
  rw [equal]
  exact ⟨_, _, rfl, gathered.lesson recorded level above,
    gathered.remarked.trans (remarked_clearMarks _ _), gathered.unmarked⟩

/-- No fact takes part in what is learned. -/
theorem analyze_above (grounded : solver.Grounded) (supported : solver.Supported)
    (above : 0 < solver.trail.level) (unmarked : solver.Unmarked) {conflict : ConstraintId}
    (conflicting : solver.Conflicting conflict) :
    ∀ literal ∈ (solver.analyze conflict).1, ∃ entry,
      solver.trail.Records (-literal) entry ∧ 0 < entry.level := by
  obtain ⟨last, entry, gathering, recorded, level, gathered, equal⟩ :=
    analyze_gathered grounded supported above unmarked conflicting
  rw [equal]
  intro literal inside
  rcases List.mem_cons.mp inside with rfl | lower
  · exact ⟨entry, by rw [Literal.neg_neg]; exact recorded, by omega⟩
  · obtain ⟨entry, records, positive, _⟩ := gathered.past literal
      (Array.mem_toList_iff.mp ((swapFirst_perm _ _).mem_iff.mp lower))
    exact ⟨entry, records, positive⟩

end Solver

end Loadout
