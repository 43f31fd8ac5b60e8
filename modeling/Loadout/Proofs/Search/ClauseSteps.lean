/-
**The invariants along the changes of stored clauses.**

A visit may put the literals of a stored clause into another order (`Solver.replaceClause`), and let
the clause watch another literal. `Stored.Same` says that two constraints differ in the order of
literals at most; what such a change keeps is stated here once for every invariant. Where the
watched pair stays, everything stays (`Settled.reorder`, `Attached.reorder`); where another literal
takes the place of a watched one, all stays settled as long as that literal is looked after
(`Settled.replace`).
-/

import Loadout.Proofs.Search.TrailSteps

namespace Loadout

/-- Two constraints differ in the order of the literals of a clause at most. -/
def Stored.Same : Stored → Stored → Prop
  | .clause first, .clause second => first.Perm second
  | .sum first, .sum second => first = second
  | _, _ => False

namespace Stored.Same

theorem refl (stored : Stored) : stored.Same stored := by
  cases stored with
  | clause literals => exact List.Perm.refl literals
  | sum linear => exact Eq.refl linear

theorem trans {first second third : Stored} (one : first.Same second) (two : second.Same third) :
    first.Same third := by
  cases first <;> cases second <;> cases third <;> simp only [Stored.Same] at one two ⊢
  · exact one.trans two
  · exact one.trans two

/-- The order of literals does not matter for truth. -/
theorem holds_eq {first second : Stored} (same : first.Same second) (assignment : Assignment) :
    first.holds assignment = second.holds assignment := by
  cases first <;> cases second <;> simp only [Stored.Same] at same
  · simp only [Stored.holds, Clause.holds]
    exact same.any_eq
  · rw [same]

/-- The order of literals does not matter for what is forced. -/
theorem forces {first second : Stored} (same : first.Same second) {trail : Trail}
    {literal : Literal} {place : Nat} (forces : first.Forces trail literal place) :
    second.Forces trail literal place := by
  cases first <;> cases second <;> simp only [Stored.Same] at same
  · exact ⟨same.mem_iff.mp forces.1, fun other inside different =>
      forces.2 other (same.mem_iff.mpr inside) different⟩
  · rw [← same]
    exact forces

theorem mem_literals {first second : Stored} (same : first.Same second) {literal : Literal} :
    literal ∈ first.literals ↔ literal ∈ second.literals := by
  cases first <;> cases second <;> simp only [Stored.Same] at same
  · exact same.mem_iff
  · rw [same]

end Stored.Same

namespace Solver

/-- The constraints of two solvers differ in the order of literals at most. -/
structure Reorders (old new : Solver) : Prop where
  size : new.constraints.size = old.constraints.size
  same : ∀ (id : ConstraintId) (stored : Stored), new.constraints[id]? = some stored →
    ∃ original, old.constraints[id]? = some original ∧ original.Same stored

namespace Reorders

theorem of_eq {old new : Solver} (same : new.constraints = old.constraints) : Reorders old new :=
  ⟨by rw [same], fun _ stored found => ⟨stored, by rw [← same]; exact found,
    Stored.Same.refl stored⟩⟩

theorem refl (solver : Solver) : Reorders solver solver := of_eq rfl

theorem trans {first second third : Solver} (one : Reorders first second)
    (two : Reorders second third) : Reorders first third := by
  refine ⟨two.size.trans one.size, fun id stored found => ?_⟩
  obtain ⟨middle, found', same⟩ := two.same id stored found
  obtain ⟨original, found'', same'⟩ := one.same id middle found'
  exact ⟨original, found'', same'.trans same⟩

/-- Each old constraint has its new form. -/
theorem new {old new : Solver} (reorders : Reorders old new) {id : ConstraintId}
    {original : Stored} (found : old.constraints[id]? = some original) :
    ∃ stored, new.constraints[id]? = some stored ∧ original.Same stored := by
  have inside := (Array.getElem?_eq_some_iff.mp found).1
  have there := Array.getElem?_eq_getElem (reorders.size ▸ inside)
  obtain ⟨original', found', same⟩ := reorders.same id _ there
  rw [found] at found'
  cases found'
  exact ⟨_, there, same⟩

/-- The same assignments satisfy both solvers. -/
theorem satisfies_iff {old new : Solver} (reorders : Reorders old new) {assignment : Assignment} :
    new.Satisfies assignment ↔ old.Satisfies assignment := by
  constructor
  · intro satisfied id original found
    obtain ⟨stored, found', same⟩ := reorders.new found
    rw [same.holds_eq]
    exact satisfied id stored found'
  · intro satisfied id stored found
    obtain ⟨original, found', same⟩ := reorders.same id stored found
    rw [← same.holds_eq]
    exact satisfied id original found'

end Reorders

variable {solver : Solver} {id : ConstraintId} {old new : Clause}

theorem getElem?_replaceClause (found : solver.constraints[id]? = some (.clause old))
    (other : ConstraintId) :
    (solver.replaceClause id new).constraints[other]? =
      if other = id then some (.clause new) else solver.constraints[other]? := by
  have inside := (Array.getElem?_eq_some_iff.mp found).1
  unfold replaceClause
  rw [Array.getElem?_setIfInBounds]
  by_cases same : other = id
  · rw [if_pos same, if_pos same.symm, if_pos inside]
  · rw [if_neg same, if_neg fun equal => same equal.symm]

/-- Replacing a clause leaves the sums as they are. -/
theorem sum_replaceClause (found : solver.constraints[id]? = some (.clause old))
    {other : ConstraintId} {linear : Linear} :
    (solver.replaceClause id new).constraints[other]? = some (.sum linear) ↔
      solver.constraints[other]? = some (.sum linear) := by
  rw [getElem?_replaceClause found]
  by_cases same : other = id
  · rw [if_pos same, same, found]
    exact ⟨nofun, nofun⟩
  · rw [if_neg same]

/-- A clause that is replaced twice is as it was replaced last. -/
theorem replaceClause_replaceClause (first second : Clause) :
    (solver.replaceClause id first).replaceClause id second = solver.replaceClause id second := by
  unfold replaceClause
  rw [Array.setIfInBounds_setIfInBounds]

/-- Replacing a clause by a permutation of it only reorders. -/
theorem reorders_replaceClause (found : solver.constraints[id]? = some (.clause old))
    (perm : old.Perm new) : Reorders solver (solver.replaceClause id new) := by
  refine ⟨Array.size_setIfInBounds, fun other stored there => ?_⟩
  rw [getElem?_replaceClause found] at there
  by_cases same : other = id
  · rw [if_pos same] at there
    cases there
    rw [same]
    exact ⟨.clause old, found, perm⟩
  · rw [if_neg same] at there
    exact ⟨stored, there, Stored.Same.refl stored⟩

theorem Grounded.reorder (grounded : solver.Grounded)
    (found : solver.constraints[id]? = some (.clause old)) (perm : old.Perm new) :
    (solver.replaceClause id new).Grounded where
  coherent := grounded.coherent
  roomy := grounded.roomy
  decided := grounded.decided
  stored other stored there := by
    obtain ⟨original, before, same⟩ := (reorders_replaceClause found perm).same other stored there
    intro literal inside
    exact grounded.stored other original before literal (same.mem_literals.mpr inside)
  distinct other literals there := by
    obtain ⟨original, before, same⟩ := (reorders_replaceClause found perm).same other _ there
    cases original with
    | sum linear => exact same.elim
    | clause clause =>
      exact (List.Perm.nodup_iff (same.map Literal.atom)).mp (grounded.distinct other clause before)

theorem Supported.reorder (supported : solver.Supported)
    (found : solver.constraints[id]? = some (.clause old)) (perm : old.Perm new) :
    (solver.replaceClause id new).Supported where
  forced atom entry reason recorded given := by
    obtain ⟨original, before, forces⟩ := supported.forced atom entry reason recorded given
    obtain ⟨stored, there, same⟩ := (reorders_replaceClause found perm).new before
    exact ⟨stored, there, same.forces forces⟩
  free := supported.free

/-- Another order of a clause leaves everything settled, provided that the literals it watches then
have been looked after. -/
theorem Settled.replace {done : Nat} (settled : solver.Settled done) {first second : Literal}
    {rest : List Literal} (found : solver.constraints[id]? = some (.clause old))
    (perm : old.Perm (first :: second :: rest))
    (looked : ∀ literal, literal = first ∨ literal = second →
      ∀ entry, solver.trail.Records (-literal) entry → entry.position < done →
        ∃ other ∈ old, ∃ witness, solver.trail.Records other witness ∧
          witness.level ≤ entry.level) :
    (solver.replaceClause id (first :: second :: rest)).Settled done where
  nonempty other there := by
    rw [getElem?_replaceClause found] at there
    split at there
    · cases there
    · exact settled.nonempty other there
  unit other literal there := by
    rw [getElem?_replaceClause found] at there
    split at there
    · cases there
    · exact settled.unit other literal there
  clause other one two others there literal watched entry records early := by
    rw [getElem?_replaceClause found] at there
    by_cases same : other = id
    · rw [if_pos same] at there
      cases there
      obtain ⟨witness, inside, rest'⟩ := looked literal watched entry records early
      exact ⟨witness, perm.mem_iff.mp inside, rest'⟩
    · rw [if_neg same] at there
      exact settled.clause other one two others there literal watched entry records early
  sum other linear there := by
    rw [getElem?_replaceClause found] at there
    split at there
    · cases there
    · exact settled.sum other linear there
  fresh := settled.fresh
  within := settled.within

/-! ### The other order of the watched literals -/

/-- Two literals are the same as two others, in the same order or in the other one. -/
def SamePair (first second one two : Literal) : Prop :=
  first = one ∧ second = two ∨ first = two ∧ second = one

theorem SamePair.watched_iff {first second one two literal : Literal}
    (pair : SamePair first second one two) :
    literal = first ∨ literal = second ↔ literal = one ∨ literal = two := by
  rcases pair with ⟨rfl, rfl⟩ | ⟨rfl, rfl⟩
  · exact Iff.rfl
  · exact or_comm

theorem SamePair.perm {first second one two : Literal} (pair : SamePair first second one two)
    (rest : List Literal) : (one :: two :: rest).Perm (first :: second :: rest) := by
  rcases pair with ⟨rfl, rfl⟩ | ⟨rfl, rfl⟩
  · exact List.Perm.refl _
  · exact List.Perm.swap _ _ _

/-- A clause that watches the same two literals in another order is settled as before. -/
theorem Settled.reorder {done : Nat} (settled : solver.Settled done)
    {one two first second : Literal} {rest : List Literal}
    (found : solver.constraints[id]? = some (.clause (one :: two :: rest)))
    (pair : SamePair first second one two) :
    (solver.replaceClause id (first :: second :: rest)).Settled done := by
  refine settled.replace found (pair.perm rest) fun literal watched entry records early => ?_
  exact settled.clause id one two rest found literal (pair.watched_iff.mp watched) entry records
    early

/-- A clause in another order with the same watched pair keeps its watchers. -/
theorem Attached.reorder {watching : Literal → List WatchNode}
    (attached : solver.Attached watching) {one two first second : Literal} {rest : List Literal}
    (found : solver.constraints[id]? = some (.clause (one :: two :: rest)))
    (pair : SamePair first second one two) :
    (solver.replaceClause id (first :: second :: rest)).Attached watching where
  watcher literal node inside := by
    obtain ⟨one', two', rest', there, watched, blocked⟩ := attached.watcher literal node inside
    rw [getElem?_replaceClause found]
    by_cases same : node.constraint = id
    · rw [same, found] at there
      cases there
      rw [if_pos same]
      exact ⟨first, second, rest, rfl, pair.watched_iff.mpr watched,
        (pair.perm rest).mem_iff.mp blocked⟩
    · rw [if_neg same]
      exact ⟨one', two', rest', there, watched, blocked⟩
  watched other one' two' rest' there literal watched := by
    rw [getElem?_replaceClause found] at there
    by_cases same : other = id
    · rw [if_pos same] at there
      cases there
      rw [same]
      exact attached.watched id one two rest found literal (pair.watched_iff.mp watched)
    · rw [if_neg same] at there
      exact attached.watched other one' two' rest' there literal watched
  once := attached.once
  mentioned other literal := by
    simp only [sum_replaceClause found]
    exact attached.mentioned other literal

end Solver

end Loadout
