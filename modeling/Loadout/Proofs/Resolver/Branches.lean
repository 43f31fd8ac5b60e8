/-
**Branches have no say in what is loaded.**

Rules that ask for the same of the choices of a table may be built with different branches, in
different numbers and orders. The branches come after the choices and weigh nothing, so the ways
down of both are similar on the variables of the choices:

* `Extends.atom?`, `Extends.objective`: branches leave the variables of the choices and the
  objective as they are;
* `Builds.shadows`: what satisfies the rules of one table agrees on the choices with something that
  satisfies those of the other;
* **`Builds.chosen_agree`**: the same choices are loaded.
-/

import Loadout.Proofs.Engine.Chosen
import Loadout.Proofs.Resolver.Builds

namespace Loadout

namespace ChoiceTable

variable {base later : ChoiceTable}

/-- Branches leave the variables of the choices as they are. -/
theorem Extends.atom? (extends' : base.Extends later) :
    (Numbering.ofTable base).count ≤ (Numbering.ofTable later).count ∧
      ∀ id, id < base.entries.size →
        (Numbering.ofTable later).atom? id = (Numbering.ofTable base).atom? id := by
  obtain ⟨labels, split⟩ := extends'
  have size : (Numbering.ofTable base).atoms.size = base.entries.size :=
    (Numbering.covers_ofTable base).size
  have kept := Numbering.atom?_extendAll (labels.map branchEntry) (Numbering.ofTable base)
  have further : Numbering.ofTable later =
      (labels.map branchEntry).foldl Numbering.extend (Numbering.ofTable base) := by
    unfold Numbering.ofTable
    rw [split, List.foldl_append]
  rw [further, ← size]
  exact kept

/-- **Branches leave the objective as it is.** -/
theorem Extends.objective (extends' : base.Extends later) (grounded : base.Grounded) :
    (Numbering.ofTable later).objective later = (Numbering.ofTable base).objective base := by
  rw [Numbering.objective_eq, Numbering.objective_eq]
  have same : ∀ entry ∈ base.toList, (Numbering.ofTable later).term? later entry =
      (Numbering.ofTable base).term? base entry := by
    intro entry inside
    have registered : base.contains entry.1 = true :=
      mem_ids_iff.mp (List.mem_map_of_mem inside)
    unfold Numbering.term?
    rw [extends'.root grounded,
      extends'.atom?.2 _ (grounded.root_lt.mpr (lt_of_contains registered))]
  obtain ⟨labels, split⟩ := extends'
  have all : later.toList = base.toList ++ (((labels.map branchEntry).zipIdx
      base.entries.size).filter fun entry => entry.1.registered).map fun entry =>
        (entry.2, entry.1) := by
    unfold toList
    rw [split, List.zipIdx_append, List.filter_append, List.map_append, Nat.zero_add,
      Array.length_toList]
  have light : ((((labels.map branchEntry).zipIdx base.entries.size).filter
      fun entry => entry.1.registered).map fun entry => (entry.2, entry.1)).filterMap
        ((Numbering.ofTable later).term? later) = [] := by
    refine List.filterMap_eq_nil_iff.mpr fun entry inside => ?_
    obtain ⟨⟨branch, place⟩, member, rfl⟩ := List.mem_map.mp inside
    obtain ⟨label, _, rfl⟩ :=
      List.mem_map.mp (List.fst_mem_of_mem_zipIdx (List.mem_filter.mp member).1)
    rfl
  rw [all, List.filterMap_append, light, List.append_nil]
  exact List.filterMap_congr same

end ChoiceTable

namespace Forest

variable {base later later' : ChoiceTable} {forest forest' : Forest} {demand : ChoiceDemand}

/-- **What satisfies the rules of one table agrees on the choices with something that satisfies
those of the other.** -/
theorem Builds.shadows (builds : Builds base later .empty forest demand)
    (builds' : Builds base later' .empty forest' demand) {demands demands' : List Demand}
    (expresses : Optimizer.Expresses (Numbering.ofTable later) demands forest.constraints)
    (expresses' : Optimizer.Expresses (Numbering.ofTable later') demands' forest'.constraints) :
    Shadows (Numbering.ofTable base).count (Meets demands) (Meets demands') := by
  intro assignment meets
  have satisfied : forest.SatisfiedBy ((Numbering.ofTable later).read assignment) :=
    satisfiedBy_iff.mpr ((expresses _ _ (Numbering.matches_read _ _)).mp meets)
  obtain ⟨value, agree, satisfied'⟩ := builds'.complete _
    (builds.sound _ (satisfiedFrom_zero.mpr satisfied))
  have agrees := (Numbering.covers_ofTable later').matches_assign value
  refine ⟨_, (expresses' _ _ agrees).mpr
    (satisfiedBy_iff.mp (satisfiedFrom_zero.mp satisfied')), fun atom positive within => ?_⟩
  obtain ⟨id, found⟩ := Numbering.exists_choice base atom positive within
  have inside : id < base.entries.size := by
    rw [← Array.length_toList, ← (Numbering.covers_ofTable base).size]
    refine Nat.lt_of_not_le fun beyond => ?_
    rw [Numbering.atom?_of_le beyond] at found
    cases found
  rw [agrees id atom (by rw [builds'.extends'.atom?.2 id inside, found]), ← agree id inside]
  unfold Numbering.read
  rw [builds.extends'.atom?.2 id inside, found]
  rfl

/-- **The same choices are loaded**, whatever branches were added. -/
theorem Builds.chosen_agree (grounded : base.Grounded)
    (builds : Builds base later .empty forest demand)
    (builds' : Builds base later' .empty forest' demand) {model model' : Array Bool}
    (chosen : forest.Chosen later model) (chosen' : forest'.Chosen later' model') :
    ChoiceTable.AgreeBelow base.entries.size ((Numbering.ofTable later).read (valuation model))
      ((Numbering.ofTable later').read (valuation model')) := by
  obtain ⟨demands, start, expresses, within, ends⟩ := chosen
  obtain ⟨demands', start', expresses', within', ends'⟩ := chosen'
  rw [builds.extends'.objective grounded] at ends
  rw [builds'.extends'.objective grounded] at ends'
  have covers := Numbering.covers_ofTable base
  have similar : Descent.Similar (Numbering.ofTable base).count
      ⟨demands, (Numbering.ofTable base).objective base,
        Optimizer.leaning ((Numbering.ofTable base).objective base)⟩
      ⟨demands', (Numbering.ofTable base).objective base,
        Optimizer.leaning ((Numbering.ofTable base).objective base)⟩ :=
    ⟨rfl, fun _ _ agree => Numbering.signedWeight_congr covers base agree,
      builds.shadows builds' expresses expresses', builds'.shadows builds expresses' expresses⟩
  have agree := similar.ends_agree ends ends' .none (Nat.le_trans builds.extends'.atom?.1 within)
    (Nat.le_trans builds'.extends'.atom?.1 within')
  intro id inside
  unfold Numbering.read
  rw [builds.extends'.atom?.2 id inside, builds'.extends'.atom?.2 id inside]
  cases found : (Numbering.ofTable base).atom? id with
  | none => rfl
  | some atom =>
    obtain ⟨positive, low⟩ := covers.within id atom found
    exact agree atom positive low

end Forest

end Loadout
