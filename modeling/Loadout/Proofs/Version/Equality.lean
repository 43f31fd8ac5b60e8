/-
**Versions at the same place of the order.**

Versions with different texts may be equal: `1.0` and `1.0.0` are, and so are versions that differ
in their build metadata alone. What the order and the constraints make of equal versions is the
same:

* `compareNumbers_eq_iff`: components are level when they are the same at every place, where those
  that are missing are zero;
* `comparePreReleases_eq_iff`: pre-release tags are level only with themselves;
* **`equals_iff`**: what equal versions have in common;
* `Constraint.accepts_congr`: every constraint accepts equal versions alike;
* **`order_lawful`**: the order can be reversed and chained, and to be equal is an equivalence that
  no constraint can tell from identity.
-/

import Loadout.Constraint.Parser
import Loadout.Proofs.Version.Order

namespace Loadout

open Std

/-- Identifiers are level only with themselves. -/
instance Identifier.lawfulEqCmp_order : LawfulEqCmp Identifier.order where
  compare_self {identifier} := by
    cases identifier with
    | number value => exact Nat.compare_eq_eq.mpr rfl
    | name text => exact compareTexts_eq_iff.mpr rfl
  eq_of_compare {left right} level := by
    cases left <;> cases right <;> simp only [order] at level
    · rw [LawfulEqCmp.eq_of_compare level]
    · cases level
    · cases level
    · rw [compareTexts_eq_iff.mp level]

/-- A list that is filled up with zeros has the same numbers at all places. -/
theorem getD_rightpad (length : Nat) (numbers : List Nat) (place : Nat) :
    (numbers.rightpad length 0)[place]?.getD 0 = numbers[place]?.getD 0 := by
  unfold List.rightpad
  rw [List.getElem?_append]
  split
  · rfl
  · next beyond =>
    rw [List.getElem?_eq_none (Nat.le_of_not_lt beyond), List.getElem?_replicate]
    split <;> rfl

namespace Version

variable {left right : Version}

/-! ### What is level -/

/-- **Components are level when they are the same at every place.** -/
theorem compareNumbers_eq_iff {left right : List Nat} : compareNumbers left right = .eq ↔
    ∀ place : Nat, left[place]?.getD 0 = right[place]?.getD 0 := by
  have enough := Nat.le_max_left left.length right.length
  have enough' := Nat.le_max_right left.length right.length
  rw [compareNumbers_eq enough enough', LawfulEqCmp.compare_eq_iff_eq]
  generalize max left.length right.length = length at enough enough'
  constructor
  · intro same place
    rw [← getD_rightpad length left, same, getD_rightpad]
  · intro same
    have filled : ∀ numbers : List Nat, numbers.length ≤ length →
        (numbers.rightpad length 0).length = length := fun numbers within => by
      unfold List.rightpad
      rw [List.length_append, List.length_replicate]
      omega
    refine List.ext_getElem ((filled left enough).trans (filled right enough').symm)
      fun place inside inside' => ?_
    have here := same place
    rw [← getD_rightpad length left, ← getD_rightpad length right] at here
    rwa [List.getElem?_eq_getElem inside, List.getElem?_eq_getElem inside'] at here

/-- **Pre-release tags are level only with themselves.** -/
theorem comparePreReleases_eq_iff {left right : List Identifier} :
    comparePreReleases left right = .eq ↔ left = right := by
  cases left with
  | nil => cases right <;> simp [comparePreReleases]
  | cons first rest =>
    cases right with
    | nil => simp [comparePreReleases]
    | cons other others =>
      show List.compareLex Identifier.order _ _ = .eq ↔ _
      exact LawfulEqCmp.compare_eq_iff_eq

/-- What versions at the same place of the order have in common: both are numeric, with the same
components and pre-release identifiers, or both are raw, with the same text. -/
def Alike (left right : Version) : Prop :=
  (left.isNumeric = true ∧ right.isNumeric = true ∧
    (∀ place, left.component place = right.component place) ∧
    left.preRelease = right.preRelease) ∨
  (left.isNumeric = false ∧ right.isNumeric = false ∧ left.text = right.text)

theorem order_eq_iff : left.order right = .eq ↔ left.Alike right := by
  unfold order Alike
  cases left.isNumeric <;> cases right.isNumeric
  · simp [compareTexts_eq_iff]
  · simp
  · simp
  · simp [Ordering.then_eq_eq, compareNumbers_eq_iff, comparePreReleases_eq_iff, component]

/-- **What equal versions have in common.** -/
theorem equals_iff : left.equals right = true ↔ left.Alike right :=
  beq_iff_eq.trans order_eq_iff

/-! ### What is made of equal versions -/

/-- Equal versions stand alike to every other one. -/
theorem order_congr (same : left.order right = .eq) (other : Version) :
    left.order other = right.order other :=
  TransCmp.congr_left same

/-- **What stands before or level with each other can be chained**: it is level if all of it is. -/
theorem order_chain {first second third : Version} (one : first.order second ≠ .gt)
    (two : second.order third ≠ .gt) :
    first.order third = (first.order second).then (second.order third) := by
  cases before : first.order second with
  | eq => exact order_congr before third
  | gt => exact absurd before one
  | lt =>
    cases after : second.order third with
    | lt => exact TransCmp.lt_trans before after
    | eq => exact TransCmp.lt_of_lt_of_eq before after
    | gt => exact absurd after two

end Version

/-- **Every constraint accepts equal versions alike.** -/
theorem Constraint.accepts_congr {left right : Version} (same : left.order right = .eq)
    (constraint : Constraint) : constraint.accepts left = constraint.accepts right := by
  have each : ∀ comparator : Comparator, comparator.accepts left = comparator.accepts right :=
    fun comparator => by
      unfold Comparator.accepts
      rw [Version.order_congr same]
  unfold Constraint.accepts
  simp only [each]

namespace Version

/-- **The order of versions is lawful.** It can be reversed and chained, whatever kinds of versions
are mixed. To be equal is to be level in it, which the components and identifiers of numeric
versions and the texts of raw ones decide; it is an equivalence, and every constraint accepts equal
versions alike. -/
theorem order_lawful :
    (∀ version other : Version, version.order other = (other.order version).swap) ∧
    (∀ first second third : Version, first.order second ≠ .gt → second.order third ≠ .gt →
      first.order third = (first.order second).then (second.order third)) ∧
    (∀ version other : Version, version.equals other = true ↔ version.order other = .eq) ∧
    (∀ version other : Version, version.equals other = true ↔ version.Alike other) ∧
    (Equivalence fun version other : Version => version.equals other = true) ∧
    ∀ version other : Version, version.equals other = true → ∀ constraint : Constraint,
      constraint.accepts version = constraint.accepts other := by
  have level : ∀ version other : Version,
      version.equals other = true ↔ version.order other = .eq := fun _ _ => beq_iff_eq
  refine ⟨fun _ _ => OrientedCmp.eq_swap, fun _ _ _ => order_chain, level, fun _ _ => equals_iff,
    ⟨fun version => ?_, fun {version other} same => ?_, fun {first second third} one two => ?_⟩,
    fun version other same constraint => ?_⟩
  · exact (level _ _).mpr ReflCmp.compare_self
  · exact (level _ _).mpr (OrientedCmp.eq_symm ((level _ _).mp same))
  · exact (level _ _).mpr (TransCmp.eq_trans ((level _ _).mp one) ((level _ _).mp two))
  · exact constraint.accepts_congr ((level _ _).mp same)

/-- A missing component is zero and build metadata is passed over, so no constraint tells these
apart; and two versions in order stay so before a third. -/
theorem order_lawful_of_padded :
    ∃ preview short long : Version, (parse "v1.0-rc.1").toOption = some preview ∧
      (parse "1.0").toOption = some short ∧ (parse "1.0.0+build").toOption = some long ∧
      short.text ≠ long.text ∧ preview.order long = .lt ∧
      ∀ constraint : Constraint, constraint.accepts short = constraint.accepts long := by
  obtain ⟨_, chain, _, _, _, accepts⟩ := order_lawful
  let preview : Version := ⟨"v1.0-rc.1", [1, 0], [.name "rc", .number 1]⟩
  let short : Version := ⟨"1.0", [1, 0], []⟩
  let long : Version := ⟨"1.0.0+build", [1, 0, 0], []⟩
  have same : short.equals long = true := by decide +kernel
  have before : preview.order short = .lt := by decide +kernel
  have level : short.order long = .eq := by decide +kernel
  refine ⟨preview, short, long, by decide +kernel, by decide +kernel, by decide +kernel, by decide,
    ?_, accepts short long same⟩
  rw [chain preview short long (by rw [before]; decide) (by rw [level]; decide), before, level]
  rfl

end Version

end Loadout
