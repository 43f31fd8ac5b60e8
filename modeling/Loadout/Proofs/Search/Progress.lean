/-
**What propagation may do to a solver.**

Propagation reorders clauses and decides forced literals, and does nothing else: every step of it is
an `Advance`, and as long as it handles one literal, a `Progress`. `Solver.Core` holds the
invariants that do not speak of the watch lists, and what keeps them:

* `Core.reorder`: a clause may watch its two literals in the other order;
* `Core.push`: a literal that a stored constraint forces may be decided.
-/

import Loadout.Proofs.Search.ClauseSteps

namespace Loadout

namespace Solver

/-! ### Progress -/

/-- **What propagation may change**: the order of literals in clauses, and the trail by forced
literals. -/
structure Advance (old new : Solver) : Prop where
  reorders : Reorders old new
  /-- Records stay. -/
  kept : ∀ atom entry, old.trail.record? atom = some entry → new.trail.record? atom = some entry
  /-- New records stand behind the old ones and have a reason. -/
  added : ∀ atom entry, new.trail.record? atom = some entry →
    old.trail.record? atom = some entry ∨ old.trail.length ≤ entry.position ∧ entry.reason ≠ none
  levelStarts : new.trail.levelStarts = old.trail.levelStarts
  length : old.trail.length ≤ new.trail.length
  room : new.trail.room = old.trail.room
  mentions : ∀ literal, new.watches.mentioning literal = old.watches.mentioning literal
  atomCount : new.atomCount = old.atomCount
  phases : new.phases = old.phases
  marks : new.marks = old.marks
  inconsistent : new.inconsistent = old.inconsistent

/-- What handling one literal may change: all of that, but not the place in the queue. -/
structure Progress (old new : Solver) : Prop extends Advance old new where
  frontier : new.frontier = old.frontier

namespace Advance

theorem refl (solver : Solver) : Advance solver solver where
  reorders := Reorders.refl solver
  kept _ _ found := found
  added _ _ found := Or.inl found
  levelStarts := rfl
  length := Nat.le_refl _
  room := rfl
  mentions _ := rfl
  atomCount := rfl
  phases := rfl
  marks := rfl
  inconsistent := rfl

theorem trans {first second third : Solver} (one : Advance first second)
    (two : Advance second third) : Advance first third where
  reorders := one.reorders.trans two.reorders
  kept atom entry found := two.kept atom entry (one.kept atom entry found)
  added atom entry found := by
    rcases two.added atom entry found with old | ⟨late, reason⟩
    · exact one.added atom entry old
    · exact Or.inr ⟨Nat.le_trans one.length late, reason⟩
  levelStarts := two.levelStarts.trans one.levelStarts
  length := Nat.le_trans one.length two.length
  room := two.room.trans one.room
  mentions literal := (two.mentions literal).trans (one.mentions literal)
  atomCount := two.atomCount.trans one.atomCount
  phases := two.phases.trans one.phases
  marks := two.marks.trans one.marks
  inconsistent := two.inconsistent.trans one.inconsistent

theorem level {old new : Solver} (advance : Advance old new) :
    new.trail.level = old.trail.level := by
  unfold Trail.level
  rw [advance.levelStarts]

theorem records {old new : Solver} (advance : Advance old new) {literal : Literal}
    {entry : Entry} (records : old.trail.Records literal entry) :
    new.trail.Records literal entry :=
  ⟨advance.kept _ _ records.1, records.2⟩

theorem isTrue {old new : Solver} (advance : Advance old new) {literal : Literal}
    (isTrue : old.trail.isTrue literal = true) : new.trail.isTrue literal = true := by
  obtain ⟨entry, records⟩ := Trail.isTrue_iff.mp isTrue
  exact Trail.isTrue_iff.mpr ⟨entry, advance.records records⟩

theorem isFalse {old new : Solver} (advance : Advance old new) {literal : Literal}
    (isFalse : old.trail.isFalse literal = true) : new.trail.isFalse literal = true := by
  rw [Trail.isFalse_eq] at isFalse ⊢
  exact advance.isTrue isFalse

/-- The records within the old queue are the old ones. -/
theorem agrees {old new : Solver} (advance : Advance old new) :
    Trail.Agrees old.trail.length old.trail new.trail := by
  intro atom entry before
  refine ⟨advance.kept atom entry, fun found => ?_⟩
  rcases advance.added atom entry found with kept | ⟨late, _⟩
  · exact kept
  · omega

end Advance

namespace Progress

theorem refl (solver : Solver) : Progress solver solver :=
  { Advance.refl solver with frontier := rfl }

theorem trans {first second third : Solver} (one : Progress first second)
    (two : Progress second third) : Progress first third :=
  { one.toAdvance.trans two.toAdvance with frontier := two.frontier.trans one.frontier }

/-- Reordering a clause is progress. -/
theorem replaceClause {solver : Solver} {id : ConstraintId} {old new : Clause}
    (found : solver.constraints[id]? = some (.clause old)) (perm : old.Perm new) :
    Progress solver (solver.replaceClause id new) :=
  { refl solver with reorders := reorders_replaceClause found perm }

/-- Changing the lists of clauses is progress. -/
theorem watches (solver : Solver) (table : WatchTable)
    (mentions : ∀ literal, table.mentioning literal = solver.watches.mentioning literal) :
    Progress solver { solver with watches := table } :=
  { refl solver with mentions := mentions, reorders := Reorders.of_eq rfl }

/-- Deciding a forced literal is progress. -/
theorem push {solver : Solver} (grounded : solver.Grounded) {literal : Literal}
    (uses : solver.Uses literal) (id : ConstraintId) :
    Progress solver (solver.push literal id) := by
  cases before : solver.trail.record? literal.atom with
  | some entry =>
    rw [push_of_decided grounded uses (some id) (by rw [before]; exact Option.some_ne_none entry)]
    exact refl solver
  | none =>
    have kept : ∀ atom entry, solver.trail.record? atom = some entry →
        (solver.trail.push literal id).record? atom = some entry := by
      intro atom entry found
      have records : solver.trail.Records ⟨atom, entry.positive⟩ entry := ⟨found, rfl⟩
      exact (records.push literal (some id)).1
    refine { refl solver with
      reorders := Reorders.of_eq rfl
      kept := kept
      added := fun atom entry found => ?_
      levelStarts := Trail.levelStarts_push _ _ _
      length := ?_
      room := ?_ }
    · have recorded : (solver.trail.push literal id).record? atom = some entry := found
      rw [Trail.record?_push _ before] at recorded
      by_cases same : atom = literal.atom
      · rw [if_pos same] at recorded
        cases recorded
        exact Or.inr ⟨Nat.le_refl _, Option.some_ne_none id⟩
      · rw [if_neg same] at recorded
        exact Or.inl recorded
    · show solver.trail.queue.size ≤ (solver.trail.push literal id).queue.size
      rw [Trail.queue_push _ before, Array.size_push]
      exact Nat.le_succ _
    · have roomy := (grounded.roomy literal uses).1
      show (solver.trail.push literal id).room = solver.trail.room
      rw [Trail.room_push]
      omega

end Progress

/-! ### The invariants of a solver at work -/

/-- **The invariants that do not speak of the watch lists.** -/
structure Core (done : Nat) (solver : Solver) : Prop where
  grounded : solver.Grounded
  supported : solver.Supported
  settled : solver.Settled done

/-- The invariants speak of the constraints, the trail and the number of variables alone. -/
theorem Core.congr {done : Nat} {solver other : Solver} (core : solver.Core done)
    (constraints : other.constraints = solver.constraints) (trail : other.trail = solver.trail)
    (atomCount : other.atomCount = solver.atomCount)
    (marks : other.marks.size = solver.marks.size)
    (phases : other.phases.size = solver.phases.size) : other.Core done := by
  obtain ⟨⟨coherent, roomy, decided, stored, distinct⟩, ⟨forced, free⟩,
    ⟨nonempty, unit, clause, sum, fresh, within⟩⟩ := core
  have uses : other.Uses = solver.Uses := by
    funext literal
    unfold Uses
    rw [atomCount]
  rw [← trail] at coherent roomy decided forced free unit clause sum fresh within
  rw [← constraints] at stored distinct forced nonempty unit clause sum
  rw [← uses] at roomy decided stored
  rw [← marks, ← phases] at roomy
  exact ⟨⟨coherent, roomy, decided, stored, distinct⟩, ⟨forced, free⟩,
    ⟨nonempty, unit, clause, sum, fresh, within⟩⟩

variable {solver : Solver}

/-- The invariants do not speak of the watch lists. -/
theorem Core.watches {done : Nat} (core : solver.Core done) (table : WatchTable) :
    Solver.Core done { solver with watches := table } :=
  core.congr rfl rfl rfl rfl rfl

theorem Core.reorder {done : Nat} (core : solver.Core done) {id : ConstraintId}
    {one two first second : Literal} {rest : List Literal}
    (found : solver.constraints[id]? = some (.clause (one :: two :: rest)))
    (pair : SamePair first second one two) :
    (solver.replaceClause id (first :: second :: rest)).Core done :=
  ⟨core.grounded.reorder found (pair.perm rest), core.supported.reorder found (pair.perm rest),
    core.settled.reorder found pair⟩

/-- A forced literal is decided. -/
theorem Core.push {done : Nat} (core : solver.Core done) {literal : Literal}
    (uses : solver.Uses literal) {id : ConstraintId} {stored : Stored}
    (found : solver.constraints[id]? = some stored)
    (forces : solver.trail.record? literal.atom = none →
      stored.Forces solver.trail literal solver.trail.length) :
    (solver.push literal id).Core done := by
  cases before : solver.trail.record? literal.atom with
  | some entry =>
    rw [push_of_decided core.grounded uses (some id)
      (by rw [before]; exact Option.some_ne_none entry)]
    exact core
  | none =>
    exact ⟨core.grounded.push uses (some id),
      core.supported.push_forced core.grounded before found (forces before),
      core.settled.push (some id) before⟩

/-- The clause has a true literal. -/
def HasTrue (solver : Solver) (id : ConstraintId) : Prop :=
  ∃ literals, solver.constraints[id]? = some (.clause literals) ∧
    ∃ literal ∈ literals, solver.trail.isTrue literal = true

theorem HasTrue.advance {old new : Solver} {id : ConstraintId} (hasTrue : old.HasTrue id)
    (advance : Advance old new) : new.HasTrue id := by
  obtain ⟨literals, found, literal, inside, isTrue⟩ := hasTrue
  obtain ⟨stored, there, same⟩ := advance.reorders.new found
  cases stored with
  | sum linear => exact same.elim
  | clause others =>
    exact ⟨others, there, literal, same.mem_iff.mp inside, advance.isTrue isTrue⟩

/-- The constraint is a clause whose literals are all false. -/
def AllFalse (solver : Solver) (id : ConstraintId) (among : Literal) : Prop :=
  ∃ literals, solver.constraints[id]? = some (.clause literals) ∧ among ∈ literals ∧
    ∀ literal ∈ literals, solver.trail.isFalse literal = true

end Solver

end Loadout
