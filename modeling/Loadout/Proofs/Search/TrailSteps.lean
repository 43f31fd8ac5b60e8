/-
**The invariants along the changes of the trail.**

Deciding a literal, opening a level and going back each keep the invariants of a solver.

Two trails that *agree* up to a place (`Trail.Agrees`) have the same records before it. A decision
agrees with the trail before it (`agrees_push`), and so does what is left after going back
(`agrees_revertTo`); what forced a literal depends on the earlier records alone
(`Stored.Forces.agrees`), so the support of a literal survives both.
-/

import Loadout.Proofs.Search.Invariants

namespace Loadout

/-! ### Trails that agree up to a place -/

namespace Trail

/-- Two trails have the same records before a place. -/
def Agrees (place : Nat) (first second : Trail) : Prop :=
  ∀ atom entry, entry.position < place →
    (first.record? atom = some entry ↔ second.record? atom = some entry)

/-- A variable with room gets no more. -/
theorem makeRoom_of_lt {trail : Trail} {atom : Nat} (roomy : atom < trail.room) :
    trail.makeRoom atom = trail := by
  have none' : atom + 1 - trail.entries.size = 0 := by
    unfold room at roomy
    omega
  unfold makeRoom
  rw [none', Array.replicate_zero, Array.append_empty]

/-- A decision changes no earlier record. -/
theorem agrees_push {trail : Trail} {literal : Literal}
    (reason : Option ConstraintId) (undecided : trail.record? literal.atom = none) :
    Agrees trail.length trail (trail.push literal reason) := by
  intro atom entry before
  rw [record?_push reason undecided]
  by_cases same : atom = literal.atom
  · rw [if_pos same, same, undecided]
    constructor
    · intro found
      cases found
    · intro found
      cases found
      exact absurd before (Nat.lt_irrefl _)
  · rw [if_neg same]

/-- Going back changes no record before the levels that are closed. -/
theorem agrees_revertTo {trail : Trail} (coherent : trail.Coherent) (level : Nat) :
    Agrees (trail.levelStart (level + 1)) trail (trail.revertTo level) := by
  intro atom entry before
  rw [coherent.record?_revertTo, Option.filter_eq_some_iff, decide_eq_true_iff]
  exact ⟨fun found => ⟨found, (coherent.position_lt_iff found level).mp before⟩, And.left⟩

end Trail

theorem trueBefore_agrees {place before : Nat} {first second : Trail}
    (agrees : Trail.Agrees place first second) (within : before ≤ place) (literal : Literal) :
    Solver.trueBefore first (some before) literal =
      Solver.trueBefore second (some before) literal := by
  rw [Bool.eq_iff_iff, Solver.trueBefore_iff, Solver.trueBefore_iff]
  constructor
  · rintro ⟨entry, records, position⟩
    exact ⟨entry, ⟨(agrees _ entry (by omega)).mp records.1, records.2⟩, position⟩
  · rintro ⟨entry, records, position⟩
    exact ⟨entry, ⟨(agrees _ entry (by omega)).mpr records.1, records.2⟩, position⟩

/-- What forces a literal depends on the earlier records alone. -/
theorem Stored.Forces.agrees {place before : Nat} {first second : Trail} {stored : Stored}
    {literal : Literal} (agrees : Trail.Agrees place first second) (within : before ≤ place)
    (forces : stored.Forces first literal before) : stored.Forces second literal before := by
  have same : Solver.trueBefore second (some before) = Solver.trueBefore first (some before) :=
    funext fun literal => (trueBefore_agrees agrees within literal).symm
  cases stored with
  | clause literals =>
    unfold Stored.Forces at forces ⊢
    rw [same]
    exact forces
  | sum linear =>
    unfold Stored.Forces at forces ⊢
    rw [same]
    exact forces

namespace Solver

variable {solver : Solver}

/-- The watch lists stay right while constraints and lists stay. -/
theorem Attached.congr {watching : Literal → List WatchNode} {other : Solver}
    (attached : solver.Attached watching) (constraints : other.constraints = solver.constraints)
    (mentions : ∀ literal, other.watches.mentioning literal = solver.watches.mentioning literal) :
    other.Attached watching where
  watcher := by
    rw [constraints]
    exact attached.watcher
  watched := by
    rw [constraints]
    exact attached.watched
  once := attached.once
  mentioned id literal := by
    rw [constraints, mentions]
    exact attached.mentioned id literal

/-! ### Deciding a literal -/

/-- Deciding a literal that is decided already changes nothing. -/
theorem push_of_decided (grounded : solver.Grounded) {literal : Literal}
    (uses : solver.Uses literal) (reason : Option ConstraintId)
    (decided : solver.trail.record? literal.atom ≠ none) :
    solver.push literal reason = solver := by
  obtain ⟨entry, found⟩ := Option.ne_none_iff_exists'.mp decided
  unfold Solver.push
  rw [Trail.push_of_decided reason found,
    Trail.makeRoom_of_lt (grounded.roomy literal uses).1]

theorem Grounded.push (grounded : solver.Grounded) {literal : Literal}
    (uses : solver.Uses literal) (reason : Option ConstraintId) :
    (solver.push literal reason).Grounded where
  coherent := grounded.coherent.push literal reason
  roomy other used := by
    have roomy := grounded.roomy other used
    refine ⟨?_, roomy.2⟩
    have := Trail.room_push solver.trail literal reason
    show other.atom < (solver.trail.push literal reason).room
    omega
  decided other isTrue := by
    obtain ⟨entry, records⟩ := Trail.isTrue_iff.mp isTrue
    cases before : solver.trail.record? literal.atom with
    | some old =>
      rw [push_of_decided grounded uses reason (by rw [before]; exact Option.some_ne_none old)]
        at records
      exact grounded.decided other (Trail.isTrue_iff.mpr ⟨entry, records⟩)
    | none =>
      have found : (solver.trail.push literal reason).record? other.atom = some entry := records.1
      rw [Trail.record?_push reason before] at found
      by_cases same : other.atom = literal.atom
      · unfold Uses
        rw [same]
        exact uses
      · rw [if_neg same] at found
        exact grounded.decided other (Trail.isTrue_iff.mpr ⟨entry, found, records.2⟩)
  stored := grounded.stored
  distinct := grounded.distinct

/-- **A forced literal has the support of the constraint that forces it.** -/
theorem Supported.push_forced (grounded : solver.Grounded) (supported : solver.Supported)
    {literal : Literal} {id : ConstraintId} {stored : Stored}
    (undecided : solver.trail.record? literal.atom = none)
    (found : solver.constraints[id]? = some stored)
    (forces : stored.Forces solver.trail literal solver.trail.length) :
    (solver.push literal id).Supported := by
  have agrees := Trail.agrees_push (some id) undecided
  refine ⟨fun atom entry reason recorded given => ?_, fun atom entry recorded given => ?_⟩
  · have before : (solver.trail.push literal id).record? atom = some entry := recorded
    rw [Trail.record?_push _ undecided] at before
    by_cases same : atom = literal.atom
    · rw [if_pos same] at before
      cases before
      cases given
      rw [same]
      exact ⟨stored, found, forces.agrees agrees (Nat.le_refl _)⟩
    · rw [if_neg same] at before
      obtain ⟨old, kept, forced⟩ := supported.forced atom entry reason before given
      have inside := grounded.coherent.position_lt before
      exact ⟨old, kept, forced.agrees agrees (by omega)⟩
  · have before : (solver.trail.push literal id).record? atom = some entry := recorded
    rw [Trail.record?_push _ undecided] at before
    by_cases same : atom = literal.atom
    · rw [if_pos same] at before
      cases before
      cases given
    · rw [if_neg same] at before
      show ∃ below, entry.level = below + 1 ∧
        (solver.trail.push literal id).levelStarts[below]? = some entry.position
      rw [Trail.levelStarts_push]
      exact supported.free atom entry before given

/-- A decision leaves settled what was settled before it. -/
theorem Settled.push {done : Nat} (settled : solver.Settled done) {literal : Literal}
    (reason : Option ConstraintId) (undecided : solver.trail.record? literal.atom = none) :
    (solver.push literal reason).Settled done := by
  have agrees := Trail.agrees_push reason undecided
  have within := settled.within
  constructor
  · exact settled.nonempty
  · intro id unit found
    obtain ⟨entry, records, bottom⟩ := settled.unit id unit found
    exact ⟨entry, records.push literal reason, bottom⟩
  · intro id first second rest found watched either entry records early
    have old := (agrees _ entry (by omega)).mpr records.1
    obtain ⟨other, inside, witness, recorded, low⟩ :=
      settled.clause id first second rest found watched either entry ⟨old, records.2⟩ early
    exact ⟨other, inside, witness, recorded.push literal reason, low⟩
  · intro id linear found
    refine Nat.le_trans (Nat.le_of_eq (passedWeight_congr fun term _ => ?_))
      (settled.sum id linear found)
    exact (trueBefore_agrees agrees within term.2).symm
  · intro atom entry recorded late
    have found : (solver.trail.push literal reason).record? atom = some entry := recorded
    show entry.level = (solver.trail.push literal reason).level
    rw [Trail.level_push]
    rw [Trail.record?_push _ undecided] at found
    by_cases same : atom = literal.atom
    · rw [if_pos same] at found
      cases found
      rfl
    · rw [if_neg same] at found
      exact settled.fresh atom entry found late
  · show done ≤ (solver.trail.push literal reason).queue.size
    rw [Trail.queue_push reason undecided, Array.size_push]
    exact Nat.le_succ_of_le within

/-! ### Opening a level -/

theorem Grounded.openLevel (grounded : solver.Grounded) : solver.openLevel.Grounded where
  coherent := grounded.coherent.openLevel
  roomy := grounded.roomy
  decided := grounded.decided
  stored := grounded.stored
  distinct := grounded.distinct

theorem Supported.openLevel (supported : solver.Supported) :
    solver.openLevel.Supported where
  forced := supported.forced
  free atom entry recorded given := by
    obtain ⟨below, level, start⟩ := supported.free atom entry recorded given
    refine ⟨below, level, ?_⟩
    have inside : below < solver.trail.level := (Array.getElem?_eq_some_iff.mp start).1
    show solver.trail.openLevel.levelStarts[below]? = some entry.position
    rw [Trail.getElem?_levelStarts_openLevel, if_neg (Nat.ne_of_lt inside)]
    exact start

/-- A level may be opened once every literal has been handled. -/
theorem Settled.openLevel (grounded : solver.Grounded)
    (settled : solver.Settled solver.trail.length) :
    solver.openLevel.Settled solver.trail.length where
  nonempty := settled.nonempty
  unit := settled.unit
  clause := settled.clause
  sum := settled.sum
  fresh atom entry recorded late := by
    have inside := grounded.coherent.position_lt recorded
    exact absurd late (Nat.not_le.mpr inside)
  within := Nat.le_refl _

/-- **A free decision supports itself**: it is the first literal of the level just opened. -/
theorem Supported.push_free (grounded : solver.Grounded) (supported : solver.Supported)
    {literal : Literal} (undecided : solver.trail.record? literal.atom = none) :
    (solver.openLevel.push literal none).Supported := by
  have undecided' : solver.trail.openLevel.record? literal.atom = none := undecided
  have agrees := Trail.agrees_push none undecided'
  have opened := supported.openLevel
  refine ⟨fun atom entry reason recorded given => ?_, fun atom entry recorded given => ?_⟩
  · have before : (solver.trail.openLevel.push literal none).record? atom = some entry := recorded
    rw [Trail.record?_push _ undecided'] at before
    by_cases same : atom = literal.atom
    · rw [if_pos same] at before
      cases before
      cases given
    · rw [if_neg same] at before
      obtain ⟨old, kept, forced⟩ := opened.forced atom entry reason before given
      have inside := grounded.coherent.openLevel.position_lt before
      exact ⟨old, kept, forced.agrees agrees (by omega)⟩
  · have before : (solver.trail.openLevel.push literal none).record? atom = some entry := recorded
    rw [Trail.record?_push _ undecided'] at before
    show ∃ below, entry.level = below + 1 ∧
      (solver.trail.openLevel.push literal none).levelStarts[below]? = some entry.position
    rw [Trail.levelStarts_push]
    by_cases same : atom = literal.atom
    · rw [if_pos same] at before
      cases before
      refine ⟨solver.trail.level, Trail.level_openLevel _, ?_⟩
      rw [Trail.getElem?_levelStarts_openLevel, if_pos rfl]
      rfl
    · rw [if_neg same] at before
      exact opened.free atom entry before given

/-! ### Going back -/

theorem Grounded.backtrack (grounded : solver.Grounded) (level : Nat) :
    (solver.backtrack level).Grounded where
  coherent := grounded.coherent.revertTo level
  roomy literal used := by
    refine ⟨?_, (grounded.roomy literal used).2⟩
    show literal.atom < (solver.trail.revertTo level).room
    rw [Trail.room_revertTo]
    exact (grounded.roomy literal used).1
  decided literal isTrue := by
    obtain ⟨entry, records⟩ := Trail.isTrue_iff.mp isTrue
    have before := (grounded.coherent.records_revertTo.mp records).1
    exact grounded.decided literal (Trail.isTrue_iff.mpr ⟨entry, before⟩)
  stored := grounded.stored
  distinct := grounded.distinct

theorem Supported.backtrack (grounded : solver.Grounded) (supported : solver.Supported)
    (level : Nat) : (solver.backtrack level).Supported := by
  have coherent := grounded.coherent
  have agrees := Trail.agrees_revertTo coherent level
  refine ⟨fun atom entry reason recorded given => ?_, fun atom entry recorded given => ?_⟩
  · have found : (solver.trail.revertTo level).record? atom = some entry := recorded
    rw [coherent.record?_revertTo, Option.filter_eq_some_iff, decide_eq_true_iff] at found
    obtain ⟨old, kept, forced⟩ := supported.forced atom entry reason found.1 given
    have inside := (coherent.position_lt_iff found.1 level).mpr found.2
    exact ⟨old, kept, forced.agrees agrees (by omega)⟩
  · have found : (solver.trail.revertTo level).record? atom = some entry := recorded
    rw [coherent.record?_revertTo, Option.filter_eq_some_iff, decide_eq_true_iff] at found
    obtain ⟨below, here, start⟩ := supported.free atom entry found.1 given
    refine ⟨below, here, ?_⟩
    show (solver.trail.revertTo level).levelStarts[below]? = some entry.position
    rw [Trail.getElem?_levelStarts_revertTo, if_pos (by omega)]
    exact start

/-- **Going back leaves settled what was settled.** -/
theorem Settled.backtrack {done : Nat} (grounded : solver.Grounded)
    (settled : solver.Settled done) (level : Nat) :
    (solver.backtrack level).Settled (min done (solver.backtrack level).trail.length) := by
  have coherent := grounded.coherent
  constructor
  · exact settled.nonempty
  · intro id unit found
    obtain ⟨entry, records, bottom⟩ := settled.unit id unit found
    exact ⟨entry, coherent.records_revertTo.mpr ⟨records, by omega⟩, bottom⟩
  · intro id first second rest found watched either entry records early
    obtain ⟨old, low⟩ := coherent.records_revertTo.mp records
    obtain ⟨other, inside, witness, recorded, lower⟩ :=
      settled.clause id first second rest found watched either entry old (by omega)
    exact ⟨other, inside, witness, coherent.records_revertTo.mpr ⟨recorded, by omega⟩, lower⟩
  · intro id linear found
    refine Nat.le_trans (passedWeight_le fun term _ counted => ?_) (settled.sum id linear found)
    obtain ⟨entry, records, early⟩ := trueBefore_iff.mp counted
    have old := (coherent.records_revertTo.mp records).1
    exact trueBefore_iff.mpr ⟨entry, old, by omega⟩
  · intro atom entry recorded late
    have inside := (coherent.revertTo level).position_lt recorded
    have found : (solver.trail.revertTo level).record? atom = some entry := recorded
    rw [coherent.record?_revertTo, Option.filter_eq_some_iff, decide_eq_true_iff] at found
    have same := settled.fresh atom entry found.1 (by
      have : (solver.backtrack level).trail.length = (solver.trail.revertTo level).length := rfl
      omega)
    show entry.level = (solver.trail.revertTo level).level
    rw [Trail.level_revertTo]
    omega
  · exact Nat.min_le_right _ _

end Solver

end Loadout
