/-
**Between a version and a raised one.**

The ranges of constraints reach from a version up to, but without, the version in which one of its
components is raised by one and the later ones are left out (`Constraint.raise`).

* `compareNumbers_eq_lt_iff`: components come before others when they are smaller at the first place
  where they differ;
* `order_eq_lt_iff`: numeric versions come before others by their components or by their tags;
* `component_raise`: the components of the raised version;
* `before_raise_iff`: what comes before the raised version but not before its base agrees with the
  base through the raised place, or is a pre-release of the raised version;
* **`accepts_between_iff`**, **`accepts_base`**: what a range accepts, the version that it starts from
  among it.
-/

import Loadout.Proofs.Version.Equality

namespace Loadout

open Std

namespace Version

/-! ### The first place that differs -/

/-- Components compare by the first place of both and then by what follows it. -/
theorem compareNumbers_step (left right : List Nat) : compareNumbers left right =
    (compare (left[0]?.getD 0) (right[0]?.getD 0)).then
      (compareNumbers left.tail right.tail) := by
  cases left <;> cases right <;> rfl

theorem getD_tail (numbers : List Nat) (place : Nat) :
    numbers.tail[place]?.getD 0 = numbers[place + 1]?.getD 0 := by
  rw [List.getElem?_tail]

/-- **Components come before others when they are smaller at the first place where they differ.** -/
theorem compareNumbers_eq_lt_iff {left right : List Nat} : compareNumbers left right = .lt ↔
    ∃ place : Nat, (∀ earlier < place, left[earlier]?.getD 0 = right[earlier]?.getD 0) ∧
      left[place]?.getD 0 < right[place]?.getD 0 := by
  -- by a length that is enough for both, since either of them may be the shorter one
  generalize enough : max left.length right.length = length
  induction length generalizing left right with
  | zero =>
    have blank : left = [] ∧ right = [] := by
      constructor <;> exact List.eq_nil_of_length_eq_zero (by omega)
    obtain ⟨rfl, rfl⟩ := blank
    exact ⟨nofun, fun ⟨_, _, less⟩ => absurd less (Nat.lt_irrefl _)⟩
  | succ length ih =>
    have later : compareNumbers left.tail right.tail = .lt ↔ _ := ih (by
      rw [List.length_tail, List.length_tail]
      omega)
    rw [compareNumbers_step, Ordering.then_eq_lt, Nat.compare_eq_lt, Nat.compare_eq_eq, later]
    simp only [getD_tail]
    constructor
    · rintro (less | ⟨same, place, before, less⟩)
      · exact ⟨0, fun _ below => absurd below (Nat.not_lt_zero _), less⟩
      · refine ⟨place + 1, fun earlier inside => ?_, less⟩
        cases earlier with
        | zero => exact same
        | succ earlier => exact before earlier (Nat.lt_of_succ_lt_succ inside)
    · rintro ⟨place, before, less⟩
      cases place with
      | zero => exact .inl less
      | succ place =>
        exact .inr ⟨before 0 (Nat.succ_pos _), place,
          fun earlier inside => before (earlier + 1) (Nat.succ_lt_succ inside), less⟩

/-- A numeric version comes before another by its components or, where these are level, by its tag. -/
theorem order_eq_lt_iff {version other : Version} (numeric : version.isNumeric = true)
    (numeric' : other.isNumeric = true) : version.order other = .lt ↔
      compareNumbers version.numbers other.numbers = .lt ∨
        compareNumbers version.numbers other.numbers = .eq ∧
          comparePreReleases version.preRelease other.preRelease = .lt := by
  rw [order, numeric, numeric']
  exact Ordering.then_eq_lt

/-- Only what has a tag comes before others by tags. -/
theorem isPreRelease_of_lt {version : Version} {others : List Identifier}
    (before : comparePreReleases version.preRelease others = .lt) : version.isPreRelease = true := by
  unfold isPreRelease
  cases tag : version.preRelease with
  | nil =>
    rw [tag] at before
    cases others <;> cases before
  | cons first rest => rfl

/-- Just what has a tag comes before what has none. -/
theorem comparePreReleases_nil_iff {version : Version} :
    comparePreReleases version.preRelease [] = .lt ↔ version.isPreRelease = true := by
  refine ⟨isPreRelease_of_lt, fun tagged => ?_⟩
  rw [isPreRelease, Bool.not_eq_true'] at tagged
  rw [comparePreReleases, tagged]
  rfl

/-! ### Agreement -/

/-- The versions have the same components through a place. -/
def AgreesThrough (version base : Version) (place : Nat) : Prop :=
  ∀ earlier ≤ place, version.component earlier = base.component earlier

instance (version base : Version) (place : Nat) : Decidable (version.AgreesThrough base place) :=
  inferInstanceAs (Decidable (∀ earlier ≤ place, _))

section Agreement

variable {version base : Version}

theorem agreesThrough_zero_iff :
    version.AgreesThrough base 0 ↔ version.component 0 = base.component 0 := by
  refine ⟨fun agrees => agrees 0 (Nat.le_refl 0), fun first place within => ?_⟩
  rw [Nat.le_zero.mp within]
  exact first

theorem agreesThrough_one_iff : version.AgreesThrough base 1 ↔
    version.component 0 = base.component 0 ∧ version.component 1 = base.component 1 := by
  refine ⟨fun agrees => ⟨agrees 0 (by decide), agrees 1 (by decide)⟩, ?_⟩
  rintro ⟨first, second⟩ place within
  match place, within with
  | 0, _ => exact first
  | 1, _ => exact second

theorem agreesThrough_last_iff (numeric : base.isNumeric = true) :
    version.AgreesThrough base (base.numbers.length - 1) ↔
      ∀ place < base.numbers.length, version.component place = base.component place := by
  have filled := List.length_pos_iff.mpr (isNumeric_iff.mp numeric)
  exact forall_congr' fun place => by rw [Nat.le_sub_one_iff_lt filled]

end Agreement

/-- A pre-release of the version that a base becomes when the component at a place is raised. -/
structure Previews (version base : Version) (place : Nat) : Prop where
  isPreRelease : version.isPreRelease = true
  before : ∀ earlier < place, version.component earlier = base.component earlier
  raised : version.component place = base.component place + 1
  after : ∀ later > place, version.component later = 0

end Version

namespace Constraint

open Version

section Range

variable {version base : Version} {place : Nat}

/-- The components of a raised version. -/
theorem component_raise (inside : place < base.numbers.length) (later : Nat) :
    (raise base.numbers place).component later =
      if later < place then base.component later
      else if later = place then base.component place + 1 else 0 := by
  have taken : (base.numbers.take place).length = place := by
    rw [List.length_take]
    omega
  show ((base.numbers.take place ++ [_])[later]?).getD 0 = _
  split
  · next earlier =>
    rw [List.getElem?_append_left (by omega), List.getElem?_take_of_lt earlier]
    rfl
  · rw [List.getElem?_append_right (by omega), taken]
    split
    · next here =>
      rw [here, Nat.sub_self]
      rfl
    · rw [List.getElem?_eq_none (by simp; omega)]
      rfl

theorem isNumeric_raise : (raise base.numbers place).isNumeric = true :=
  isNumeric_iff.mpr (List.append_ne_nil_of_right_ne_nil _ (List.cons_ne_nil _ _))

/-- What a version that does not come before a base has at the first place where they may differ. -/
theorem component_le (numeric : version.isNumeric = true) (numeric' : base.isNumeric = true)
    (least : version.order base ≠ .lt) {later : Nat}
    (before : ∀ earlier < later, version.component earlier = base.component earlier) :
    base.component later ≤ version.component later := by
  refine Nat.le_of_not_lt fun less => least ?_
  exact (order_eq_lt_iff numeric numeric').mpr
    (.inl (compareNumbers_eq_lt_iff.mpr ⟨later, before, less⟩))

/-- A numeric version comes before a raised one by its components or as a pre-release of it. -/
theorem order_raise_eq_lt_iff (numeric : version.isNumeric = true) :
    version.order (raise base.numbers place) = .lt ↔
      compareNumbers version.numbers (raise base.numbers place).numbers = .lt ∨
        compareNumbers version.numbers (raise base.numbers place).numbers = .eq ∧
          version.isPreRelease = true := by
  rw [order_eq_lt_iff numeric isNumeric_raise, ← comparePreReleases_nil_iff]
  rfl

/-- The components of a version that does not come before a base come before the raised ones just if
they agree with the base through the raised place. -/
theorem numbers_before_raise_iff (numeric : version.isNumeric = true)
    (numeric' : base.isNumeric = true) (inside : place < base.numbers.length)
    (least : version.order base ≠ .lt) :
    compareNumbers version.numbers (raise base.numbers place).numbers = .lt ↔
      version.AgreesThrough base place := by
  have raised (later : Nat) : (raise base.numbers place).numbers[later]?.getD 0 = _ :=
    component_raise inside later
  have atLeast {later : Nat} : (∀ earlier < later, version.component earlier = _) → _ :=
    component_le numeric numeric' least
  rw [compareNumbers_eq_lt_iff]
  simp only [raised]
  constructor
  · rintro ⟨later, before, less⟩
    have agrees : ∀ earlier < later, earlier < place →
        version.component earlier = base.component earlier := fun earlier first within => by
      rw [component, before earlier first, if_pos within]
    rcases Nat.lt_trichotomy later place with within | rfl | beyond
    · -- the base is not greater there
      rw [if_pos within] at less
      have greater := atLeast fun earlier first => agrees earlier first (Nat.lt_trans first within)
      exact absurd less (Nat.not_lt_of_le greater)
    · have greater := atLeast fun earlier first => agrees earlier first first
      rw [if_neg (Nat.lt_irrefl _), if_pos rfl] at less
      intro earlier within
      rcases Nat.lt_or_eq_of_le within with first | rfl
      · exact agrees earlier first first
      · exact Nat.le_antisymm (Nat.le_of_lt_succ less) greater
    · rw [if_neg (Nat.lt_asymm beyond), if_neg (Nat.ne_of_gt beyond)] at less
      exact absurd less (Nat.not_lt_zero _)
  · intro agrees
    refine ⟨place, fun earlier first => ?_, ?_⟩
    · rw [if_pos first]
      exact agrees earlier (Nat.le_of_lt first)
    · rw [if_neg (Nat.lt_irrefl _), if_pos rfl]
      exact Nat.lt_succ_of_le (Nat.le_of_eq (agrees place (Nat.le_refl _)))

/-- A pre-release has the raised components just if it is one of the raised version. -/
theorem numbers_level_raise_iff (inside : place < base.numbers.length)
    (tagged : version.isPreRelease = true) :
    compareNumbers version.numbers (raise base.numbers place).numbers = .eq ↔
      version.Previews base place := by
  have raised (later : Nat) : (raise base.numbers place).numbers[later]?.getD 0 = _ :=
    component_raise inside later
  rw [compareNumbers_eq_iff]
  simp only [raised]
  constructor
  · intro same
    exact ⟨tagged, fun earlier first => (same earlier).trans (if_pos first),
      (same place).trans ((if_neg (Nat.lt_irrefl _)).trans (if_pos rfl)), fun later beyond =>
      (same later).trans ((if_neg (Nat.lt_asymm beyond)).trans (if_neg (Nat.ne_of_gt beyond)))⟩
  · intro preview later
    rcases Nat.lt_trichotomy later place with first | rfl | beyond
    · rw [if_pos first]
      exact preview.before later first
    · rw [if_neg (Nat.lt_irrefl _), if_pos rfl]
      exact preview.raised
    · rw [if_neg (Nat.lt_asymm beyond), if_neg (Nat.ne_of_gt beyond)]
      exact preview.after later beyond

/-- **What comes before a raised version but not before its base** agrees with the base through the
raised place or is a pre-release of the raised version. -/
theorem before_raise_iff (numeric : version.isNumeric = true) (numeric' : base.isNumeric = true)
    (inside : place < base.numbers.length) (least : version.order base ≠ .lt) :
    version.order (raise base.numbers place) = .lt ↔
      version.AgreesThrough base place ∨ version.Previews base place := by
  rw [order_raise_eq_lt_iff numeric, numbers_before_raise_iff numeric numeric' inside least]
  refine or_congr_right ⟨fun ⟨same, tagged⟩ => ?_, fun preview => ?_⟩
  · exact (numbers_level_raise_iff inside tagged).mp same
  · exact ⟨(numbers_level_raise_iff inside preview.isPreRelease).mpr preview, preview.isPreRelease⟩

/-- **What a range accepts.** -/
theorem accepts_between_iff (numeric : base.isNumeric = true)
    (inside : place < base.numbers.length) :
    (between base (raise base.numbers place)).all (Comparator.accepts · version) = true ↔
      version.isNumeric = true ∧ version.order base ≠ .lt ∧
        (version.AgreesThrough base place ∨ version.Previews base place) := by
  have both : (between base (raise base.numbers place)).all (Comparator.accepts · version) = true ↔
      version.order base ≠ .lt ∧ version.order (raise base.numbers place) = .lt := by
    simp [between, Comparator.accepts, Operator.accepts]
  rw [both]
  cases known : version.isNumeric with
  | true =>
    rw [and_iff_right rfl]
    exact and_congr_right fun least => before_raise_iff known numeric inside least
  | false =>
    -- a raw version comes before every numeric one
    have before : version.order base = .lt := by rw [order, known, numeric]
    exact ⟨fun ⟨least, _⟩ => absurd before least, fun ⟨numeric', _⟩ => by cases numeric'⟩

/-- **A range accepts the version that it starts from**, and the raised version lies above it. -/
theorem accepts_base (numeric : base.isNumeric = true) (inside : place < base.numbers.length) :
    (between base (raise base.numbers place)).all (Comparator.accepts · base) = true ∧
      base.order (raise base.numbers place) = .lt := by
  have least : base.order base ≠ .lt := by
    rw [show base.order base = .eq from ReflCmp.compare_self]
    decide
  have agrees : base.AgreesThrough base place := fun _ _ => rfl
  exact ⟨(accepts_between_iff numeric inside).mpr ⟨numeric, least, .inl agrees⟩,
    (before_raise_iff numeric numeric inside least).mpr (.inl agrees)⟩

end Range

end Constraint

end Loadout
