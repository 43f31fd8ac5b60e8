/-
**What fixes the choices that are loaded.**

An engine that finds its rules feasible builds an optimizer from scratch, and what it loads then is
read off the last assignment on the way down (`Forest.Chosen`). That way is fixed by the table and
the rules alone, and runs through the variables in the order of the choices:

* `Numbering.exists_choice`: every variable belongs to a choice;
* `Numbering.signedWeight_congr`: what an assignment costs depends on the variables of the choices
  alone;
* `Chosen.satisfied`, `Chosen.least`: what is chosen satisfies the rules, and nothing that does
  weighs less;
* `hasSolution_builds`: a check that succeeds leaves an optimizer that was just built;
* **`solution_chosen`**: the solution after it loads what was chosen.
-/

import Loadout.Proofs.Engine.Calls
import Loadout.Proofs.Engine.Descents

namespace Loadout

namespace Numbering

/-! ### Variables of choices -/

/-- Every variable in use belongs to a choice. -/
def Full (numbering : Numbering) : Prop :=
  ∀ atom, 1 ≤ atom → atom ≤ numbering.count → ∃ id, numbering.atom? id = some atom

theorem Full.extend {numbering : Numbering} (full : numbering.Full) (entry : ChoiceEntry) :
    (numbering.extend entry).Full := by
  have older : ∀ slot count atom, (∃ id, numbering.atom? id = some atom) →
      ∃ id, (⟨numbering.atoms.push slot, count⟩ : Numbering).atom? id = some atom := by
    rintro slot count atom ⟨id, found⟩
    refine ⟨id, ?_⟩
    rw [atom?_push numbering]
    split
    · next last =>
      rw [atom?_of_le (Nat.le_of_eq last.symm)] at found
      cases found
    · exact found
  unfold Numbering.extend
  split
  · intro atom positive within
    rcases Nat.lt_or_eq_of_le within with below | last
    · exact older _ _ atom (full atom positive (Nat.lt_succ_iff.mp below))
    · refine ⟨numbering.atoms.size, ?_⟩
      rw [atom?_push numbering, if_pos rfl, last]
  · exact fun atom positive within => older _ _ atom (full atom positive within)

/-- **Every variable of a table belongs to a choice.** -/
theorem exists_choice (table : ChoiceTable) : (ofTable table).Full := by
  have all : ∀ (entries : List ChoiceEntry) (numbering : Numbering), numbering.Full →
      (entries.foldl Numbering.extend numbering).Full := by
    intro entries
    induction entries with
    | nil => exact fun _ full => full
    | cons entry rest ih => exact fun _ full => ih _ (full.extend entry)
  refine all _ _ fun atom positive within => ?_
  exact absurd (Nat.le_trans positive within) (Nat.not_succ_le_zero 0)

/-- Further entries leave the variables as they are. -/
theorem atom?_extendAll (entries : List ChoiceEntry) (numbering : Numbering) :
    numbering.count ≤ (entries.foldl extend numbering).count ∧
      ∀ id, id < numbering.atoms.size →
        (entries.foldl extend numbering).atom? id = numbering.atom? id := by
  induction entries generalizing numbering with
  | nil => exact ⟨Nat.le_refl _, fun _ _ => rfl⟩
  | cons entry rest ih =>
    obtain ⟨more, kept⟩ := ih (numbering.extend entry)
    have here : numbering.count ≤ (numbering.extend entry).count ∧
        (numbering.extend entry).atoms.size = numbering.atoms.size + 1 ∧
        ∀ id, id < numbering.atoms.size →
          (numbering.extend entry).atom? id = numbering.atom? id := by
      unfold extend
      split <;> refine ⟨?_, Array.size_push _, fun id inside => ?_⟩
      · exact Nat.le_succ _
      · rw [atom?_push numbering, if_neg (Nat.ne_of_lt inside)]
      · exact Nat.le_refl _
      · rw [atom?_push numbering, if_neg (Nat.ne_of_lt inside)]
    refine ⟨Nat.le_trans here.1 more, fun id inside => ?_⟩
    rw [List.foldl_cons, kept id (by rw [here.2.1]; exact Nat.lt_succ_of_lt inside),
      here.2.2 id inside]

/-- **What an assignment costs depends on the variables of the choices alone.** -/
theorem signedWeight_congr {numbering : Numbering} {entries : List ChoiceEntry}
    (covers : numbering.Covers entries) (table : ChoiceTable) {assignment other : Assignment}
    (agree : AgreeUpTo numbering.count assignment other) :
    signedWeight assignment (numbering.objective table) =
      signedWeight other (numbering.objective table) := by
  rw [signedWeight_objective covers, signedWeight_objective covers]
  have same : ∀ id, numbering.read assignment id = numbering.read other id := by
    intro id
    unfold read
    cases found : numbering.atom? id with
    | none => rfl
    | some atom =>
      obtain ⟨positive, within⟩ := covers.within id atom found
      exact agree atom positive within
  simp only [same]

end Numbering

namespace Forest

/-- **An assignment is the one by which the choices of a table are loaded under the rules of a
forest**: it is the last one on the way down, for demands that are what the rules say. -/
def Chosen (table : ChoiceTable) (forest : Forest) (model : Array Bool) : Prop :=
  ∃ demands start, Optimizer.Expresses (Numbering.ofTable table) demands forest.constraints ∧
    (Numbering.ofTable table).count ≤ start ∧
    Descent.Ends ⟨demands, (Numbering.ofTable table).objective table,
      Optimizer.leaning ((Numbering.ofTable table).objective table)⟩ ⟨none, start⟩ (.found model)

variable {table : ChoiceTable} {forest : Forest} {model : Array Bool}

/-- What is chosen satisfies the rules. -/
theorem Chosen.satisfied (chosen : forest.Chosen table model) :
    forest.SatisfiedBy ((Numbering.ofTable table).read (valuation model)) := by
  obtain ⟨demands, start, expresses, _, ends⟩ := chosen
  exact satisfiedBy_iff.mpr ((expresses _ _ (Numbering.matches_read _ _)).mp ends.least.1)

/-- **Nothing else that satisfies the rules weighs less.** -/
theorem Chosen.least (chosen : forest.Chosen table model) {value : ChoiceId → Bool}
    (satisfied : forest.SatisfiedBy value) :
    table.totalWeight (table.loadedBy ((Numbering.ofTable table).read (valuation model))) ≤
      table.totalWeight (table.loadedBy value) := by
  obtain ⟨demands, start, expresses, _, ends⟩ := chosen
  have agrees := (Numbering.covers_ofTable table).matches_assign value
  rw [← Engine.signedWeight_eq_totalWeight agrees,
    ← Engine.signedWeight_eq_totalWeight (Numbering.matches_read _ _)]
  exact ends.least.2 _ ((expresses _ _ agrees).mpr (satisfiedBy_iff.mp satisfied))

end Forest

namespace Engine

variable {engine after : Engine}

/-- **A check that succeeds leaves an optimizer that was just built.** -/
theorem hasSolution_builds (other : engine.step ≠ .ready)
    (answered : engine.hasSolution = (.ok true, after)) :
    after.step = .ready ∧ ∃ optimizer,
      after.prepared = some (Numbering.ofTable after.choices, optimizer) ∧
      Optimizer.build (Numbering.ofTable after.choices) after.forest.constraints
        ((Numbering.ofTable after.choices).objective after.choices) = .ok optimizer := by
  have inquiry := inquiry_hasSolution engine
  rw [answered] at inquiry
  generalize given : ((.ok true, after) : Outcome Bool) = outcome at inquiry
  cases inquiry with
  | poisoned | closed | remembered => cases given
  | ready _ step => exact absurd step other
  | checked forest _ _ _ _ _ =>
    have checked := checked_checkRules { engine with forest }
    rw [← given] at checked
    generalize again : ((.ok true, after) : Outcome Bool) = outcome at checked
    cases checked with
    | faulty fault _ => cases again
    | interrupted dog _ _ =>
      exact absurd (congrArg Prod.fst again).symm (interrupted_not_ok _ true)
    | feasible dog optimizer _ _ _ built =>
      cases again
      exact ⟨rfl, optimizer, rfl, built⟩
    | infeasible dog core _ _ _ => cases again

/-- **What a solution after a check loads is what was chosen.** -/
theorem solution_chosen (other : engine.step ≠ .ready)
    (answered : engine.hasSolution = (.ok true, after)) {loaded : List ChoiceId}
    (solved : after.solution.1 = .ok loaded) :
    ∃ model, after.forest.Chosen after.choices model ∧
      loaded = after.choices.loadedBy
        ((Numbering.ofTable after.choices).read (valuation model)) := by
  obtain ⟨ready, optimizer, prepared, built⟩ := hasSolution_builds other answered
  have covers := Numbering.covers_ofTable after.choices
  have proper := Numbering.objective_proper covers after.choices
  obtain ⟨demands, sound, follows, wide, expresses⟩ := Optimizer.build_follows proper built
  have sought := sought_solution after
  generalize after.solution = outcome at sought solved
  cases sought with
  | found _ model _ _ searched =>
    cases solved
    cases prepared.symm.trans searched.prepared
    have ends := ((Optimizer.loops_optimize sound after.startClock.watchdog).follows proper
      follows).2
    rw [searched.optimized] at ends
    exact ⟨model, ⟨demands, _, expresses _ covers, wide, ends⟩, loadedIn_eq after model⟩
  | interrupted => exact absurd solved (interrupted_not_ok _ loaded)
  | _ => cases solved

end Engine

end Loadout
