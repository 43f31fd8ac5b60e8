/-
**Computations that may fail.**

What is made of several computations succeeds just when all of them do (`bind_ok_iff`, `mapM_ok_iff`,
`foldlM_ok_iff`). The results of a list of computations are those of each of them, one by one
(`mapM_eq_ok_iff`), and it fails as the first of them that does (`mapM_eq_error_iff`).
-/

import Mathlib.Data.List.Forall2

namespace Loadout

variable {α β ε : Type}

/-- What is computed in two steps succeeds when both of them do. -/
theorem bind_ok_iff {made : Except ε α} {next : α → Except ε β} :
    (∃ result, made >>= next = .ok result) ↔
      ∃ value, made = .ok value ∧ ∃ result, next value = .ok result := by
  cases made with
  | error error => exact ⟨nofun, nofun⟩
  | ok value =>
    exact ⟨fun later => ⟨value, rfl, later⟩, fun ⟨_, same, later⟩ => by cases same; exact later⟩

/-- What is made of a computation succeeds when the computation does. -/
theorem map_ok_iff {made : Except ε α} {make : α → β} :
    (∃ result, (do return make (← made)) = Except.ok (ε := ε) result) ↔
      ∃ value, made = .ok value := by
  rw [bind_ok_iff]
  exact exists_congr fun value => and_iff_left ⟨make value, rfl⟩

/-- What is made of a computation is made of what the computation gives. -/
theorem map_eq_ok_iff {made : Except ε α} {make : α → β} {result : β} :
    made.map make = .ok result ↔ ∃ value, made = .ok value ∧ make value = result := by
  cases made with
  | error error => exact ⟨nofun, nofun⟩
  | ok value =>
    exact ⟨fun same => ⟨value, rfl, Except.ok.inj same⟩,
      fun ⟨_, same, result⟩ => by cases same; exact congrArg Except.ok result⟩

/-- What is made of a computation fails as the computation does. -/
theorem map_eq_error_iff {made : Except ε α} {make : α → β} {error : ε} :
    made.map make = .error error ↔ made = .error error := by
  cases made with
  | error other => rw [Except.map, Except.error.injEq, Except.error.injEq]
  | ok value => exact ⟨nofun, nofun⟩

/-- A list of computations succeeds when all of them do. -/
theorem mapM_ok_iff {step : α → Except ε β} {list : List α} :
    (∃ results, list.mapM step = .ok results) ↔
      ∀ value ∈ list, ∃ result, step value = .ok result := by
  induction list with
  | nil => exact iff_of_true ⟨[], rfl⟩ fun _ inside => absurd inside List.not_mem_nil
  | cons value rest ih =>
    rw [List.mapM_cons, bind_ok_iff, List.forall_mem_cons, ← ih]
    constructor
    · rintro ⟨result, first, later⟩
      exact ⟨⟨result, first⟩, map_ok_iff.mp later⟩
    · rintro ⟨⟨result, first⟩, later⟩
      exact ⟨result, first, map_ok_iff.mpr later⟩

/-- A fold of computations succeeds when all values are good, if those are what each step needs. -/
theorem foldlM_ok_iff {step : β → α → Except ε β} {good : α → Prop}
    (each : ∀ state value, (∃ result, step state value = .ok result) ↔ good value)
    {list : List α} (state : β) :
    (∃ result, list.foldlM step state = .ok result) ↔ ∀ value ∈ list, good value := by
  induction list generalizing state with
  | nil => exact iff_of_true ⟨state, rfl⟩ fun _ inside => absurd inside List.not_mem_nil
  | cons value rest ih =>
    rw [List.foldlM_cons, bind_ok_iff, List.forall_mem_cons, ← each state value]
    constructor
    · rintro ⟨next, first, later⟩
      exact ⟨⟨next, first⟩, (ih next).mp later⟩
    · rintro ⟨⟨next, first⟩, later⟩
      exact ⟨next, first, (ih next).mpr later⟩

/-- The results of a list of computations that all succeed, one by one. -/
theorem forall₂_of_mapM {step : α → Except ε β} {list : List α} {results : List β}
    (done : list.mapM step = .ok results) :
    List.Forall₂ (fun value result => step value = .ok result) list results := by
  induction list generalizing results with
  | nil =>
    cases done
    exact .nil
  | cons value rest ih =>
    rw [List.mapM_cons] at done
    cases first : step value with
    | error error =>
      rw [first] at done
      cases done
    | ok result =>
      cases later : rest.mapM step with
      | error error =>
        rw [first, later] at done
        cases done
      | ok others =>
        rw [first, later] at done
        cases done
        exact .cons first (ih later)

/-- A list of computations gives some results just when each of them gives its own. -/
theorem mapM_eq_ok_iff {step : α → Except ε β} {list : List α} {results : List β} :
    list.mapM step = .ok results ↔
      List.Forall₂ (fun value result => step value = .ok result) list results := by
  refine ⟨forall₂_of_mapM, fun each => ?_⟩
  induction each with
  | nil => rfl
  | cons first _ ih =>
    rw [List.mapM_cons, first, ih]
    rfl

theorem exists_mem_of_forall₂ {related : α → β → Prop} {list : List α} {results : List β}
    (each : List.Forall₂ related list results) {result : β} (member : result ∈ results) :
    ∃ value ∈ list, related value result := by
  induction each with
  | nil => cases member
  | cons first _ ih =>
    rcases List.mem_cons.mp member with rfl | later
    · exact ⟨_, List.mem_cons_self, first⟩
    · obtain ⟨value, among, here⟩ := ih later
      exact ⟨value, List.mem_cons_of_mem _ among, here⟩

/-- A list of computations fails as the first of them that does. -/
theorem mapM_eq_error_iff {step : α → Except ε β} {list : List α} {error : ε} :
    list.mapM step = .error error ↔ ∃ before value after, list = before ++ value :: after ∧
      (∀ earlier ∈ before, ∃ result, step earlier = .ok result) ∧ step value = .error error := by
  induction list with
  | nil =>
    refine ⟨nofun, fun ⟨before, value, after, whole, _⟩ => ?_⟩
    exact absurd whole.symm (List.append_ne_nil_of_right_ne_nil _ (List.cons_ne_nil _ _))
  | cons value rest ih =>
    rw [List.mapM_cons]
    constructor
    · intro failed
      cases first : step value with
      | error other =>
        rw [first] at failed
        cases failed
        exact ⟨[], value, rest, rfl, nofun, first⟩
      | ok result =>
        rw [first] at failed
        have later : rest.mapM step = .error error := map_eq_error_iff.mp failed
        obtain ⟨before, value', after, rfl, read, failed'⟩ := ih.mp later
        exact ⟨value :: before, value', after, rfl,
          List.forall_mem_cons.mpr ⟨⟨result, first⟩, read⟩, failed'⟩
    · rintro ⟨before, value', after, whole, read, failed⟩
      cases before with
      | nil =>
        cases whole
        rw [failed]
        rfl
      | cons value before =>
        cases whole
        obtain ⟨⟨result, first⟩, others⟩ := List.forall_mem_cons.mp read
        rw [first]
        exact map_eq_error_iff.mpr (ih.mpr ⟨before, value', after, rfl, others, failed⟩)

/-- What holds of one of the results holds of what one of the computations gives. -/
theorem exists_mem_of_mapM {step : α → Except ε β} {list : List α}
    {results : List β} {test : β → Prop} (done : list.mapM step = .ok results) :
    (∃ result ∈ results, test result) ↔
      ∃ value ∈ list, ∃ result, step value = .ok result ∧ test result := by
  have each := forall₂_of_mapM done
  clear done
  induction each with
  | nil => simp
  | cons made _ ih =>
    rw [List.exists_mem_cons_iff, List.exists_mem_cons_iff]
    refine or_congr ?_ ih
    rw [made]
    exact ⟨fun holds => ⟨_, rfl, holds⟩, fun ⟨_, same, holds⟩ => Except.ok.inj same ▸ holds⟩

/-- A list of computations depends on what each of them gives. -/
theorem mapM_congr {step other : α → Except ε β} {list : List α}
    (same : ∀ value ∈ list, step value = other value) : list.mapM step = list.mapM other := by
  induction list with
  | nil => rfl
  | cons value rest ih =>
    rw [List.mapM_cons, List.mapM_cons, same value List.mem_cons_self,
      ih fun other inside => same other (List.mem_cons_of_mem _ inside)]

theorem mapM_singleton (step : α → Except ε β) (value : α) :
    [value].mapM step = do return [← step value] := by
  rw [List.mapM_cons]
  rfl

/-- What each item gives to one reader and to another alike, a list of items does. -/
theorem mapM_ok_of {step step' : α → Except ε β} {list : List α} {results : List β}
    (same : ∀ item result, step item = .ok result → step' item = .ok result)
    (read : list.mapM step = .ok results) : list.mapM step' = .ok results := by
  induction list generalizing results with
  | nil => exact read
  | cons item rest ih =>
    rw [List.mapM_cons] at read ⊢
    cases here : step item with
    | error error =>
      rw [here] at read
      cases read
    | ok first =>
      cases later : rest.mapM step with
      | error error =>
        rw [here, later] at read
        cases read
      | ok others =>
        rw [here, later] at read
        rw [same item first here, ih later]
        exact read

end Loadout
