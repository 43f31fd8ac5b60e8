/-
**Which of several equally cheap ways is chosen.**

Among the assignments that satisfy the rules at the least cost, the one that is found comes first in
the order of the choices, where a choice that lowers the cost is preferred to be loaded and every
other one not to be:

* `Descent.Ends.leads`: on the variables, what is found comes before all that is as cheap;
* `Numbering.atom?_lt`: the variables are in the order of their choices;
* `Optimizer.leaning_iff`, `Numbering.leaning_objective`: the values that are preferred are those
  of the choices that lower the cost;
* **`Forest.Chosen.leans`**: at the first choice where something else as cheap differs from what is
  chosen, the choice is loaded just when it lowers the cost.
-/

import Loadout.Proofs.Engine.Chosen

namespace Loadout

namespace Descent

variable {descent : Descent} {stage next : Stage}

/-- No variable gets out of use on the way down. -/
theorem Leads.count_le (way : descent.Leads stage next) : stage.count ≤ next.count := by
  induction way with
  | refl => exact Nat.le_refl _
  | tail _ step ih =>
    cases step with
    | down _ => exact Nat.le_trans ih (Nat.le_max_left _ _)

/-- **What is found comes before everything else that is as cheap.** -/
theorem Ends.leads {start : Nat} {model : Array Bool}
    (ends : descent.Ends ⟨none, start⟩ (.found model)) {assignment : Assignment}
    (meets : Meets descent.demands assignment)
    (light : descent.cost assignment ≤ descent.cost (valuation model)) :
    ∃ count, start ≤ count ∧ (AgreeUpTo count (valuation model) assignment ∨
      Loadout.Leads descent.preferred count (valuation model) assignment) := by
  obtain ⟨last, way, _⟩ := ends
  rcases way.cases_tail with same | ⟨above, way', step⟩
  · cases same
  · have wide := Leads.count_le way'
    cases step with
    | down first =>
      have cheaper : descent.Cheaper above.best assignment :=
        ⟨meets, fun best found => Int.lt_of_le_of_lt light (first.among.2 best found)⟩
      exact ⟨above.count, wide, first.first assignment cheaper⟩

end Descent

namespace Numbering

variable {numbering : Numbering} {table : ChoiceTable}

/-! ### The order of the variables -/

/-- Variables are in the order of their choices. -/
def Ascending (numbering : Numbering) : Prop :=
  ∀ first second atom atom', first < second → numbering.atom? first = some atom →
    numbering.atom? second = some atom' → atom < atom'

theorem Ascending.extend {entries : List ChoiceEntry} (covers : numbering.Covers entries)
    (ascending : numbering.Ascending) (entry : ChoiceEntry) :
    (numbering.extend entry).Ascending := by
  intro first second atom atom' before found found'
  unfold Numbering.extend at found found'
  split at found
  · next root =>
    rw [if_pos root] at found'
    rw [atom?_push numbering] at found found'
    split at found'
    · next last =>
      cases found'
      rw [if_neg (Nat.ne_of_lt (last ▸ before))] at found
      exact Nat.lt_succ_of_le (covers.within _ _ found).2
    · next older =>
      split at found
      · next last =>
        rw [atom?_of_le (Nat.le_of_lt (last ▸ before))] at found'
        cases found'
      · exact ascending _ _ _ _ before found found'
  · next other =>
    rw [if_neg other] at found'
    rw [atom?_push numbering] at found found'
    split at found
    · cases found
    · split at found'
      · cases found'
      · exact ascending _ _ _ _ before found found'

/-- **The variables of a table are in the order of their choices.** -/
theorem atom?_lt (table : ChoiceTable) : (ofTable table).Ascending := by
  have all : ∀ (rest entries : List ChoiceEntry) (numbering : Numbering),
      numbering.Covers entries → numbering.Ascending →
        (rest.foldl Numbering.extend numbering).Ascending := by
    intro rest
    induction rest with
    | nil => exact fun _ _ _ ascending => ascending
    | cons entry rest ih =>
      exact fun _ _ covers ascending => ih _ _ (covers.extend entry) (ascending.extend covers entry)
  exact all _ _ _ (covers_ofTable .empty) fun _ _ _ _ _ found => by cases found

end Numbering

/-! ### Preferred values -/

namespace Optimizer

/-- **A variable is preferred to be true just where it lowers the cost**, in an objective that
counts what is true. -/
theorem leaning_iff {objective : List (Int × Literal)}
    (positive : ∀ term ∈ objective, term.2.positive = true) (atom : Nat) :
    leaning objective atom = true ↔ ∃ term ∈ objective, term.1 < 0 ∧ term.2.atom = atom := by
  have all : ∀ preferred : Assignment,
      objective.foldl (fun preferred term =>
        if term.1 < 0 then
          fun atom => if atom = term.2.atom then term.2.positive else preferred atom
        else preferred) preferred atom = true ↔
      preferred atom = true ∨ ∃ term ∈ objective, term.1 < 0 ∧ term.2.atom = atom := by
    induction objective with
    | nil => simp
    | cons term rest ih =>
      intro preferred
      have later := fun other inside => positive other (List.mem_cons_of_mem term inside)
      rw [List.foldl_cons, ih later, List.exists_mem_cons_iff, ← or_assoc]
      refine or_congr_left ?_
      by_cases lowers : term.1 < 0
      · by_cases own : atom = term.2.atom
        · simp [lowers, own, positive term List.mem_cons_self]
        · simp [lowers, own, Ne.symm own]
      · simp [lowers]
  rw [leaning, all]
  simp

end Optimizer

namespace ChoiceTable

/-- Some choice with a root lowers the cost. -/
def Lowers (table : ChoiceTable) (root : ChoiceId) : Prop :=
  ∃ id weight, table.weight? id = some weight ∧ weight < 0 ∧ table.root id = root

end ChoiceTable

namespace Numbering

variable {table : ChoiceTable}

/-- **A root is preferred to be loaded just when some choice with it lowers the cost.** -/
theorem leaning_objective {root : ChoiceId} {atom : Nat}
    (found : (ofTable table).atom? root = some atom) :
    Optimizer.leaning ((ofTable table).objective table) atom = true ↔ table.Lowers root := by
  have covers := covers_ofTable table
  have positive : ∀ term ∈ (ofTable table).objective table, term.2.positive = true := by
    intro term inside
    rw [objective_eq] at inside
    obtain ⟨entry, _, given⟩ := List.mem_filterMap.mp inside
    unfold term? at given
    split at given
    · cases given
    · obtain ⟨_, _, rfl⟩ := Option.map_eq_some_iff.mp given
      rfl
  rw [Optimizer.leaning_iff positive, objective_eq]
  constructor
  · rintro ⟨term, inside, lowers, same⟩
    obtain ⟨⟨id, entry⟩, listed, given⟩ := List.mem_filterMap.mp inside
    unfold term? at given
    split at given
    · cases given
    · obtain ⟨_, found', rfl⟩ := Option.map_eq_some_iff.mp given
      cases same
      refine ⟨id, entry.weight, ?_, lowers, covers.injective _ _ _ found' found⟩
      exact congrArg (Option.map _) (ChoiceTable.mem_toList_iff.mp listed)
  · rintro ⟨id, weight, weighs, lowers, rfl⟩
    obtain ⟨entry, listed, rfl⟩ := Option.map_eq_some_iff.mp weighs
    refine ⟨(entry.weight, .ofAtom atom), List.mem_filterMap.mpr ⟨(id, entry),
      ChoiceTable.mem_toList_iff.mpr listed, ?_⟩, lowers, rfl⟩
    unfold term?
    rw [if_neg (Int.ne_of_lt lowers), found]
    rfl

end Numbering

/-! ### The choices that are loaded -/

namespace Forest

variable {table : ChoiceTable} {forest : Forest} {model : Array Bool}

/-- **The choices that are loaded come first among the cheapest**: at the first root where values
that satisfy the rules and weigh no more differ from them, the root is loaded just when some choice
with it lowers the cost. -/
theorem Chosen.leans (chosen : forest.Chosen table model) {value : ChoiceId → Bool}
    (satisfied : forest.SatisfiedBy value)
    (light : table.totalWeight (table.loadedBy value) ≤
      table.totalWeight (table.loadedBy ((Numbering.ofTable table).read (valuation model))))
    {root : ChoiceId} (isRoot : table.isRoot root = true)
    (before : ∀ id < root, (Numbering.ofTable table).read (valuation model) id = value id)
    (differ : (Numbering.ofTable table).read (valuation model) root ≠ value root) :
    (Numbering.ofTable table).read (valuation model) root = true ↔ table.Lowers root := by
  have covers := Numbering.covers_ofTable table
  have agrees := covers.matches_assign value
  have reads := Numbering.matches_read (Numbering.ofTable table) (valuation model)
  obtain ⟨demands, start, expresses, wide, ends⟩ := chosen
  rw [← Engine.signedWeight_eq_totalWeight agrees,
    ← Engine.signedWeight_eq_totalWeight reads] at light
  obtain ⟨count, wider, first⟩ :=
    ends.leads ((expresses _ _ agrees).mpr (satisfiedBy_iff.mp satisfied)) light
  obtain ⟨atom, found⟩ :=
    Option.isSome_iff_exists.mp ((Numbering.isSome_atom?_iff table root).mpr isRoot)
  obtain ⟨positive, within⟩ := covers.within root atom found
  have here : (Numbering.ofTable table).read (valuation model) root = valuation model atom :=
    (reads root atom found).symm
  have apart : valuation model atom ≠ (Numbering.ofTable table).assign value atom := by
    rw [agrees root atom found, ← here]
    exact differ
  have inUse : atom ≤ count := Nat.le_trans within (Nat.le_trans wide wider)
  rw [here, ← Numbering.leaning_objective found]
  rcases first with same | ⟨other, positive', _, below, good, bad⟩
  · exact absurd (same atom positive inUse) apart
  · -- the first variable where the two differ is that of the root
    rcases Nat.lt_trichotomy atom other with earlier | rfl | later
    · exact absurd (below atom positive (Nat.le_sub_one_of_lt earlier)) apart
    · rw [good]
    · obtain ⟨id, found'⟩ := Numbering.exists_choice table other positive'
        (Nat.le_trans (Nat.le_of_lt later) within)
      have lower : id < root := by
        refine Nat.lt_of_not_le fun above => ?_
        rcases Nat.lt_or_eq_of_le above with after | same
        · exact Nat.lt_asymm later (Numbering.atom?_lt table _ _ _ _ after found found')
        · subst same
          rw [found] at found'
          cases found'
          exact Nat.lt_irrefl _ later
      refine absurd ?_ bad
      rw [agrees id other found', ← before id lower, ← reads id other found']
      exact good

end Forest

end Loadout
