/-
**Storing a constraint keeps the invariants.**

A new constraint gets a number that no list mentions yet. Storing it keeps each invariant under a
condition on the constraint alone (`Grounded.store`, `Supported.store`, `Settled.store`,
`Attached.store_unit`, `Attached.store_pair`, `Attached.store_sum`).

**`learn_spec`**: after going back with a lesson, the learned clause is stored and forces its first
literal. The clause would not be settled before that literal is true, and the literal would not be
supported before the clause is stored, so the two invariants are followed in opposite orders.
-/

import Loadout.Proofs.Search.Lessons

namespace Loadout

namespace Solver

variable {solver : Solver} {done : Nat} {stored : Stored}

/-! ### A new constraint -/

theorem getElem?_store (stored : Stored) (solver : Solver) (id : ConstraintId) :
    (solver.store stored).2.constraints[id]? =
      if id = solver.constraints.size then some stored else solver.constraints[id]? := by
  show (solver.constraints.push stored)[id]? = _
  rw [Array.getElem?_push]

/-- The number of a new constraint is not in use. -/
theorem getElem?_size (solver : Solver) : solver.constraints[solver.constraints.size]? = none :=
  Array.getElem?_eq_none_iff.mpr (Nat.le_refl _)

/-- Stored constraints keep their numbers. -/
theorem getElem?_store_of_some {id : ConstraintId} {old : Stored}
    (found : solver.constraints[id]? = some old) :
    (solver.store stored).2.constraints[id]? = some old := by
  rw [getElem?_store, if_neg ?_, found]
  intro same
  rw [same, getElem?_size] at found
  cases found

/-- An assignment satisfies the new constraint in addition. -/
theorem satisfies_store {assignment : Assignment} :
    (solver.store stored).2.Satisfies assignment ↔
      solver.Satisfies assignment ∧ stored.holds assignment = true := by
  constructor
  · intro satisfied
    refine ⟨fun id old found => satisfied id old (getElem?_store_of_some found),
      satisfied solver.constraints.size stored ?_⟩
    rw [getElem?_store, if_pos rfl]
  · rintro ⟨satisfied, holds⟩ id other found
    rw [getElem?_store] at found
    split at found
    · cases found
      exact holds
    · exact satisfied id other found

theorem Grounded.store (grounded : solver.Grounded)
    (uses : ∀ literal ∈ stored.literals, solver.Uses literal)
    (distinct : ∀ literals, stored = .clause literals → (literals.map Literal.atom).Nodup) :
    (solver.store stored).2.Grounded where
  coherent := grounded.coherent
  roomy := grounded.roomy
  decided := grounded.decided
  stored id other found := by
    rw [getElem?_store] at found
    split at found
    · cases found
      exact uses
    · exact grounded.stored id other found
  distinct id literals found := by
    rw [getElem?_store] at found
    split at found
    · exact distinct literals (Option.some.inj found)
    · exact grounded.distinct id literals found

theorem Supported.store (supported : solver.Supported) (stored : Stored) :
    (solver.store stored).2.Supported where
  forced atom entry id recorded given := by
    obtain ⟨old, found, forces⟩ := supported.forced atom entry id recorded given
    exact ⟨old, getElem?_store_of_some found, forces⟩
  free := supported.free

/-- A new constraint is settled when it has been looked after itself. -/
theorem Settled.store (settled : solver.Settled done) (nonempty : stored ≠ .clause [])
    (unit : ∀ literal, stored = .clause [literal] →
      ∃ entry, solver.trail.Records literal entry ∧ entry.level = 0)
    (clause : ∀ first second rest, stored = .clause (first :: second :: rest) →
      ∀ literal, literal = first ∨ literal = second →
        ∀ entry, solver.trail.Records (-literal) entry → entry.position < done →
          ∃ other ∈ first :: second :: rest, ∃ witness,
            solver.trail.Records other witness ∧ witness.level ≤ entry.level)
    (sum : ∀ linear, stored = .sum linear →
      passedWeight (trueBefore solver.trail (some done)) linear.terms ≤ linear.bound) :
    (solver.store stored).2.Settled done where
  nonempty id found := by
    rw [getElem?_store] at found
    split at found
    · exact nonempty (Option.some.inj found)
    · exact settled.nonempty id found
  unit id literal found := by
    rw [getElem?_store] at found
    split at found
    · exact unit literal (Option.some.inj found)
    · exact settled.unit id literal found
  clause id first second rest found := by
    rw [getElem?_store] at found
    split at found
    · exact clause first second rest (Option.some.inj found)
    · exact settled.clause id first second rest found
  sum id linear found := by
    rw [getElem?_store] at found
    split at found
    · exact sum linear (Option.some.inj found)
    · exact settled.sum id linear found
  fresh := settled.fresh
  within := settled.within

/-! ### Watching a new constraint -/

/-- Storing keeps what the lists say about the old constraints. -/
theorem Attached.store_mentioned {watching : Literal → List WatchNode}
    (attached : solver.Attached watching) (stored : Stored) (id : ConstraintId)
    (literal : Literal) :
    (∃ linear, (solver.store stored).2.constraints[id]? = some (.sum linear) ∧
      literal ∈ linear.terms.map Prod.snd) ↔
    id ∈ solver.watches.mentioning literal ∨ id = solver.constraints.size ∧
      ∃ linear, stored = .sum linear ∧ literal ∈ linear.terms.map Prod.snd := by
  rw [attached.mentioned, getElem?_store]
  by_cases same : id = solver.constraints.size
  · rw [if_pos same, same, getElem?_size]
    simp
  · rw [if_neg same]
    simp [same]

/-- A clause of one literal is not watched. -/
theorem Attached.store_unit {watching : Literal → List WatchNode}
    (attached : solver.Attached watching) (literal : Literal) :
    (solver.store (.clause [literal])).2.Attached watching where
  watcher other node inside := by
    obtain ⟨first, second, rest, found, watched⟩ := attached.watcher other node inside
    exact ⟨first, second, rest, getElem?_store_of_some found, watched⟩
  watched id first second rest found := by
    rw [getElem?_store] at found
    split at found
    · cases found
    · exact attached.watched id first second rest found
  once := attached.once
  mentioned id other := by
    rw [attached.store_mentioned]
    simp [store]

/-- A bounded sum is mentioned by its literals. -/
theorem Attached.store_sum {watching : Literal → List WatchNode}
    (attached : solver.Attached watching) (linear : Linear) :
    Solver.Attached watching { (solver.store (.sum linear)).2 with
      watches := solver.watches.watchSum solver.constraints.size (linear.terms.map Prod.snd) } where
  watcher other node inside := by
    obtain ⟨first, second, rest, found, watched⟩ := attached.watcher other node inside
    exact ⟨first, second, rest, getElem?_store_of_some found, watched⟩
  watched id first second rest found := by
    have there : (solver.store (.sum linear)).2.constraints[id]? =
        some (.clause (first :: second :: rest)) := found
    rw [getElem?_store] at there
    split at there
    · cases there
    · exact attached.watched id first second rest there
  once := attached.once
  mentioned id other := by
    refine Iff.trans ?_ (attached.store_mentioned (.sum linear) id other).symm
    rw [WatchTable.mem_mentioning_watchSum]
    simp

/-- The number of a new constraint is in no list. -/
theorem Attached.unlisted {watching : Literal → List WatchNode}
    (attached : solver.Attached watching) {literal : Literal} {node : WatchNode}
    (inside : node ∈ watching literal) : node.constraint ≠ solver.constraints.size := by
  intro same
  obtain ⟨one, two, others, found, _⟩ := attached.watcher literal node inside
  rw [same, getElem?_size] at found
  cases found

/-- **A longer clause is watched by its first two literals.** -/
theorem Attached.store_pair (attached : solver.Attached solver.watches.watching)
    {first second : Literal} {rest : List Literal} (different : first ≠ second) :
    Solver.Attached (solver.watches.watchClause solver.constraints.size first second).watching
      { (solver.store (.clause (first :: second :: rest))).2 with
        watches := solver.watches.watchClause solver.constraints.size first second } where
  watcher literal node inside := by
    have new : (solver.store (.clause (first :: second :: rest))).2.constraints[
        solver.constraints.size]? = some (.clause (first :: second :: rest)) := by
      rw [getElem?_store, if_pos rfl]
    rcases (WatchTable.mem_watching_watchClause _ _ different literal node).mp inside with
      old | ⟨rfl, rfl⟩ | ⟨rfl, rfl⟩
    · obtain ⟨one, two, others, found, watched⟩ := attached.watcher literal node old
      exact ⟨one, two, others, getElem?_store_of_some found, watched⟩
    · exact ⟨literal, second, rest, new, Or.inl rfl, List.mem_cons_of_mem _ List.mem_cons_self⟩
    · exact ⟨first, literal, rest, new, Or.inr rfl, List.mem_cons_self⟩
  watched id one two others found literal watched := by
    have there : (solver.store (.clause (first :: second :: rest))).2.constraints[id]? =
        some (.clause (one :: two :: others)) := found
    have listed := WatchTable.mem_watching_watchClause solver.watches solver.constraints.size
      different literal
    rw [getElem?_store] at there
    split at there
    · next same =>
      cases there
      rcases watched with rfl | rfl
      · exact ⟨_, (listed _).mpr (Or.inr (Or.inl ⟨rfl, rfl⟩)), same.symm⟩
      · exact ⟨_, (listed _).mpr (Or.inr (Or.inr ⟨rfl, rfl⟩)), same.symm⟩
    · obtain ⟨node, inside, same⟩ := attached.watched id one two others there literal watched
      exact ⟨node, (listed _).mpr (Or.inl inside), same⟩
  once literal := by
    have once := attached.once literal
    have fresh : ∀ node ∈ solver.watches.watching literal,
        node.constraint ≠ solver.constraints.size := fun _ inside => attached.unlisted inside
    rw [WatchTable.watching_watchClause _ _ different]
    split
    · next here => exact here ▸ WatchTable.nodup_append_node once fresh
    · split
      · next here => exact here ▸ WatchTable.nodup_append_node once fresh
      · exact once
  mentioned id literal := by
    refine Iff.trans ?_ (attached.store_mentioned (.clause (first :: second :: rest)) id
      literal).symm
    rw [WatchTable.mentioning_watchClause]
    simp

/-! ### Learning -/

/-- **A learned clause is settled** once its first literal is true at the present level, which is
that of the second literal. -/
theorem Settled.store_decided (settled : solver.Settled done) {first : Literal}
    {rest : List Literal} {entry : Entry} (recorded : solver.trail.Records first entry)
    (runnerUp : ∀ second tail, rest = second :: tail → ∃ record,
      solver.trail.Records (-second) record ∧ entry.level ≤ record.level)
    (unit : rest = [] → entry.level = 0) :
    (solver.store (.clause (first :: rest))).2.Settled done := by
  refine settled.store ?_ ?_ ?_ ?_
  · exact fun same => by cases same
  · intro literal same
    cases same
    exact ⟨_, recorded, unit rfl⟩
  · intro one two others same literal watched record records early
    cases same
    rcases watched with rfl | rfl
    · have isFalse := Trail.isFalse_iff.mpr ⟨record, records⟩
      rw [Trail.not_isFalse_of_isTrue (Trail.isTrue_iff.mpr ⟨_, recorded⟩)] at isFalse
      cases isFalse
    · obtain ⟨known, old, level⟩ := runnerUp literal others rfl
      exact ⟨first, List.mem_cons_self, _, recorded, records.unique old ▸ level⟩
  · exact fun linear same => by cases same

/-- **A learned clause forces its first literal** when the others are false and, where there are
others, the second one is of the present level. -/
theorem Core.store_forcing (core : solver.Core done) {first : Literal} {rest : List Literal}
    (uses : solver.Uses first)
    (undecided : solver.trail.record? first.atom = none)
    (distinct : ((first :: rest).map Literal.atom).Nodup)
    (past : ∀ literal ∈ rest, ∃ entry, solver.trail.Records (-literal) entry)
    (runnerUp : ∀ second tail, rest = second :: tail → ∃ entry,
      solver.trail.Records (-second) entry ∧ entry.level = solver.trail.level)
    (unit : rest = [] → solver.trail.level = 0) :
    ((solver.store (.clause (first :: rest))).2.push first solver.constraints.size).Core done := by
  have used : ∀ literal ∈ (Stored.clause (first :: rest)).literals, solver.Uses literal := by
    intro literal inside
    rcases List.mem_cons.mp inside with rfl | inside
    · exact uses
    · obtain ⟨entry, records⟩ := past literal inside
      exact core.grounded.decided (-literal) (Trail.isTrue_iff.mpr ⟨entry, records⟩)
  have grounded := core.grounded.store used fun literals same => by
    cases same
    exact distinct
  have forces : (Stored.clause (first :: rest)).Forces solver.trail first
      solver.trail.length := by
    refine ⟨List.mem_cons_self, fun other inside different => ?_⟩
    obtain ⟨entry, records⟩ := past other ((List.mem_cons.mp inside).resolve_left different)
    exact trueBefore_iff.mpr ⟨entry, records, core.grounded.coherent.position_lt records.1⟩
  have new : (solver.store (.clause (first :: rest))).2.constraints[solver.constraints.size]? =
      some (.clause (first :: rest)) := by
    rw [getElem?_store, if_pos rfl]
  -- The first literal is recorded at the present level.
  have recorded : (solver.push first solver.constraints.size).trail.Records first
      (solver.trail.nextEntry first (some solver.constraints.size)) := by
    refine ⟨?_, rfl⟩
    show (solver.trail.push first (some solver.constraints.size)).record? first.atom = _
    rw [Trail.record?_push _ undecided, if_pos rfl]
  have settled : ((solver.push first solver.constraints.size).store
      (.clause (first :: rest))).2.Settled done := by
    refine (core.settled.push (some solver.constraints.size) undecided).store_decided recorded
      (fun second tail shape => ?_) unit
    obtain ⟨record, old, level⟩ := runnerUp second tail shape
    exact ⟨record, old.push first (some solver.constraints.size), Nat.le_of_eq level.symm⟩
  exact ⟨grounded.push uses _, (core.supported.store _).push_forced grounded undecided new forces,
    settled⟩

/-- What a learned clause leaves as it was. -/
structure Learned (first : Literal) (rest : List Literal) (old new : Solver) : Prop where
  constraints : new.constraints = old.constraints.push (.clause (first :: rest))
  trail : new.trail = old.trail.push first (some old.constraints.size)
  frontier : new.frontier = old.frontier
  atomCount : new.atomCount = old.atomCount
  phases : new.phases = old.phases
  marks : new.marks = old.marks
  inconsistent : new.inconsistent = old.inconsistent

theorem learned_learn (solver : Solver) (first : Literal) (rest : List Literal) :
    Learned first rest solver (solver.learn (first :: rest)) := by
  cases rest with
  | nil => exact ⟨rfl, rfl, rfl, rfl, rfl, rfl, rfl⟩
  | cons second tail => exact ⟨rfl, rfl, rfl, rfl, rfl, rfl, rfl⟩

/-- **Learning keeps the invariants.** -/
theorem learn_spec (core : solver.Core solver.trail.length)
    (attached : solver.Attached solver.watches.watching) {first : Literal} {rest : List Literal}
    (uses : solver.Uses first) (undecided : solver.trail.record? first.atom = none)
    (distinct : ((first :: rest).map Literal.atom).Nodup)
    (past : ∀ literal ∈ rest, ∃ entry, solver.trail.Records (-literal) entry)
    (runnerUp : ∀ second tail, rest = second :: tail → ∃ entry,
      solver.trail.Records (-second) entry ∧ entry.level = solver.trail.level)
    (unit : rest = [] → solver.trail.level = 0) :
    (solver.learn (first :: rest)).Core solver.trail.length ∧
      (solver.learn (first :: rest)).Attached (solver.learn (first :: rest)).watches.watching ∧
      Learned first rest solver (solver.learn (first :: rest)) := by
  have stored := core.store_forcing uses undecided distinct past runnerUp unit
  have learned := learned_learn solver first rest
  refine ⟨stored.congr learned.constraints learned.trail learned.atomCount
    (congrArg Array.size learned.marks) (congrArg Array.size learned.phases), ?_, learned⟩
  cases rest with
  | nil => exact (attached.store_unit first).congr rfl fun _ => rfl
  | cons second tail =>
    have different : first ≠ second := by
      intro same
      have once := (List.nodup_cons.mp distinct).1
      rw [same] at once
      exact once List.mem_cons_self
    have watched : Solver.Attached
        (solver.watches.watchClause solver.constraints.size first second).watching
        { (solver.store (.clause (first :: second :: tail))).2 with
          watches := solver.watches.watchClause solver.constraints.size first second } :=
      attached.store_pair different
    exact watched.congr rfl fun _ => rfl

end Solver

end Loadout
