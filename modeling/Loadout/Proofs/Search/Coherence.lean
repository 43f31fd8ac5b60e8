/-
**A trail whose records, queue and levels agree.**

A trail keeps three things: a record per variable, the queue of decided literals, and the places at
which levels begin. `Trail.Coherent` says that they tell one story: every record points at its own
place in the queue and every place has a record, and the level of a record is the number of levels
that begin at or before its place.

* Every change keeps this: `Coherent.makeRoom`, `Coherent.openLevel`, `Coherent.push`,
  `Coherent.revertTo`.
* **`Coherent.record?_revertTo`**: going back to a level forgets exactly the records above it.
* `Coherent.length_le_room`: no more literals are decided than variables have room.
-/

import Loadout.Search.Trail
import Mathlib.Data.List.Nodup
import Mathlib.Tactic.ByContra

namespace Loadout

namespace Trail

/-- The literal is true by an entry of the trail. -/
def Records (trail : Trail) (literal : Literal) (entry : Entry) : Prop :=
  trail.record? literal.atom = some entry ∧ entry.positive = literal.positive

/-- **Records, queue and levels agree.** -/
structure Coherent (trail : Trail) : Prop where
  /-- A record points at the place of its literal in the queue. -/
  placed : ∀ atom entry, trail.record? atom = some entry →
    trail.queue[entry.position]? = some ⟨atom, entry.positive⟩
  /-- Every literal of the queue is recorded at its place. -/
  recorded : ∀ (place : Nat) (literal : Literal), trail.queue[place]? = some literal →
    ∃ entry, trail.Records literal entry ∧ entry.position = place
  /-- The levels that begin at or before a record are those up to its own. -/
  levelled : ∀ atom entry, trail.record? atom = some entry → entry.level ≤ trail.level ∧
    ∀ below start : Nat, trail.levelStarts[below]? = some start →
      (start ≤ entry.position ↔ below < entry.level)
  /-- Levels begin within the queue. -/
  bounded : ∀ below start : Nat, trail.levelStarts[below]? = some start → start ≤ trail.length
  /-- Later levels begin later. -/
  ascending : ∀ first second start next : Nat, first ≤ second →
    trail.levelStarts[first]? = some start → trail.levelStarts[second]? = some next → start ≤ next

/-! ### Truth by records -/

theorem value?_eq (trail : Trail) (literal : Literal) :
    trail.value? literal =
      (trail.record? literal.atom).map fun entry => entry.positive == literal.positive := rfl

/-- A literal is true when the trail records it. -/
theorem isTrue_iff {trail : Trail} {literal : Literal} :
    trail.isTrue literal = true ↔ ∃ entry, trail.Records literal entry := by
  unfold isTrue Records
  rw [value?_eq]
  cases trail.record? literal.atom with
  | none => simp
  | some entry => simp

/-- A literal is false when the trail records its opposite. -/
theorem isFalse_iff {trail : Trail} {literal : Literal} :
    trail.isFalse literal = true ↔ ∃ entry, trail.Records (-literal) entry := by
  unfold isFalse Records
  rw [value?_eq, Literal.neg_atom, Literal.neg_positive]
  cases trail.record? literal.atom with
  | none => simp
  | some entry =>
    cases one : entry.positive <;> cases other : literal.positive <;> simp [one]

/-- A literal is false when its opposite is true. -/
theorem isFalse_eq (trail : Trail) (literal : Literal) :
    trail.isFalse literal = trail.isTrue (-literal) := by
  rw [Bool.eq_iff_iff, isFalse_iff, isTrue_iff]

/-- A decided literal is true or false. -/
theorem isTrue_or_isFalse {trail : Trail} {literal : Literal} {entry : Entry}
    (decided : trail.record? literal.atom = some entry) :
    trail.isTrue literal = true ∨ trail.isFalse literal = true := by
  rw [isTrue_iff, isFalse_iff]
  by_cases same : entry.positive = literal.positive
  · exact Or.inl ⟨entry, decided, same⟩
  · refine Or.inr ⟨entry, decided, ?_⟩
    rw [Literal.neg_positive]
    cases one : entry.positive <;> cases other : literal.positive <;> simp_all

/-- No literal is true and false. -/
theorem not_isFalse_of_isTrue {trail : Trail} {literal : Literal}
    (isTrue : trail.isTrue literal = true) : trail.isFalse literal = false := by
  by_contra both
  obtain ⟨entry, found, same⟩ := isTrue_iff.mp isTrue
  obtain ⟨other, found', same'⟩ := isFalse_iff.mp (by simpa using both)
  rw [Literal.neg_atom, found] at found'
  cases found'
  rw [same, Literal.neg_positive] at same'
  cases value : literal.positive <;> rw [value] at same' <;> cases same'

/-- The records of a literal are one. -/
theorem Records.unique {trail : Trail} {literal : Literal} {first second : Entry}
    (one : trail.Records literal first) (other : trail.Records literal second) :
    first = second := by
  have same := one.1.symm.trans other.1
  exact Option.some.inj same

/-- Two literals that are true on one variable are the same. -/
theorem eq_of_records {trail : Trail} {first second : Literal} {entry other : Entry}
    (one : trail.Records first entry) (two : trail.Records second other)
    (same : first.atom = second.atom) : first = second := by
  have equal : entry = other := by
    have found := one.1
    rw [same, two.1] at found
    exact (Option.some.inj found).symm
  obtain ⟨atom, positive⟩ := first
  obtain ⟨atom', positive'⟩ := second
  have values : positive = positive' :=
    one.2.symm.trans ((congrArg Entry.positive equal).trans two.2)
  rw [show atom = atom' from same, values]

/-- The value of a literal is undecided when its variable has no record. -/
theorem value?_eq_none_iff {trail : Trail} {literal : Literal} :
    trail.value? literal = none ↔ trail.record? literal.atom = none := by
  rw [value?_eq, Option.map_eq_none_iff]

theorem value?_eq_true_iff {trail : Trail} {literal : Literal} :
    trail.value? literal = some true ↔ trail.isTrue literal = true := by
  unfold isTrue
  rw [beq_iff_eq]

theorem value?_eq_false_iff {trail : Trail} {literal : Literal} :
    trail.value? literal = some false ↔ trail.isFalse literal = true := by
  unfold isFalse
  rw [beq_iff_eq]

theorem levelStart_succ (trail : Trail) (level : Nat) :
    trail.levelStart (level + 1) = trail.levelStarts[level]?.getD trail.length := rfl

/-! ### What follows from agreement -/

namespace Coherent

variable {trail : Trail}

/-- The place of a record lies in the queue. -/
theorem position_lt (coherent : trail.Coherent) {atom : Nat} {entry : Entry}
    (found : trail.record? atom = some entry) : entry.position < trail.length := by
  have placed := coherent.placed atom entry found
  rw [Array.getElem?_eq_some_iff] at placed
  exact placed.1

/-- Two records at one place are one record of one variable. -/
theorem atom_unique (coherent : trail.Coherent) {first second : Nat} {entry other : Entry}
    (found : trail.record? first = some entry) (found' : trail.record? second = some other)
    (same : entry.position = other.position) : first = second ∧ entry = other := by
  have one := coherent.placed first entry found
  have two := coherent.placed second other found'
  rw [same, two] at one
  have atoms : second = first := congrArg Literal.atom (Option.some.inj one)
  subst atoms
  exact ⟨rfl, Option.some.inj (found.symm.trans found')⟩

/-- The queue has the literal of a record at its place. -/
theorem queue_of_records (coherent : trail.Coherent) {literal : Literal} {entry : Entry}
    (records : trail.Records literal entry) :
    trail.queue[entry.position]? = some literal := by
  rw [coherent.placed _ _ records.1, records.2]

/-- Levels do not fall along the queue. -/
theorem level_mono (coherent : trail.Coherent) {first second : Nat} {entry other : Entry}
    (found : trail.record? first = some entry) (found' : trail.record? second = some other)
    (before : entry.position ≤ other.position) : entry.level ≤ other.level := by
  by_contra falls
  obtain ⟨within, levels⟩ := coherent.levelled first entry found
  have open' : other.level < trail.levelStarts.size := by
    have : entry.level ≤ trail.levelStarts.size := within
    omega
  have start := Array.getElem?_eq_getElem open'
  have early := (levels other.level _ start).mpr (by omega)
  have late := ((coherent.levelled second other found').2 other.level _ start).mp (by omega)
  omega

/-- A record stands below the start of a level exactly when its level is lower. -/
theorem position_lt_iff (coherent : trail.Coherent) {atom : Nat} {entry : Entry}
    (found : trail.record? atom = some entry) (level : Nat) :
    entry.position < trail.levelStart (level + 1) ↔ entry.level ≤ level := by
  obtain ⟨within, levels⟩ := coherent.levelled atom entry found
  rw [levelStart_succ]
  cases start : trail.levelStarts[level]? with
  | none =>
    rw [Array.getElem?_eq_none_iff] at start
    have inside := coherent.position_lt found
    have : entry.level ≤ trail.levelStarts.size := within
    rw [Option.getD_none]
    omega
  | some place =>
    have := levels level place start
    rw [Option.getD_some]
    omega

/-- The variables of the queue are distinct. -/
theorem nodup_atoms (coherent : trail.Coherent) :
    (trail.queue.toList.map Literal.atom).Nodup := by
  rw [List.nodup_iff_getElem?_ne_getElem?]
  intro first second before inside same
  simp only [List.length_map, Array.length_toList] at inside
  have one := Array.getElem?_eq_getElem (show first < trail.queue.size by omega)
  have two := Array.getElem?_eq_getElem inside
  obtain ⟨entry, records, place⟩ := coherent.recorded first _ one
  obtain ⟨other, records', place'⟩ := coherent.recorded second _ two
  simp only [List.getElem?_map, Array.getElem?_toList, one, two, Option.map_some,
    Option.some.injEq] at same
  have found := records.1
  rw [same, records'.1] at found
  cases found
  omega

/-- **No more literals are decided than variables have room.** -/
theorem length_le_room (coherent : trail.Coherent) : trail.length ≤ trail.room := by
  have roomy : ∀ atom ∈ trail.queue.toList.map Literal.atom,
      atom ∈ List.range trail.entries.size := by
    intro atom inside
    obtain ⟨literal, member, rfl⟩ := List.mem_map.mp inside
    obtain ⟨place, queued⟩ := List.mem_iff_getElem?.mp member
    rw [Array.getElem?_toList] at queued
    obtain ⟨entry, records, _⟩ := coherent.recorded place literal queued
    rw [List.mem_range]
    by_contra outside
    have absent : trail.entries[literal.atom]? = none :=
      Array.getElem?_eq_none_iff.mpr (by omega)
    have found := records.1
    unfold record? at found
    rw [absent] at found
    cases found
  have count := coherent.nodup_atoms.length_le_of_subset roomy
  simpa [length, room] using count

end Coherent

/-! ### Making room -/

@[simp] theorem record?_makeRoom (trail : Trail) (room atom : Nat) :
    (trail.makeRoom room).record? atom = trail.record? atom := by
  unfold record? makeRoom
  simp only [Array.getElem?_append, Array.getElem?_replicate]
  split
  · rfl
  · next outside =>
    rw [Array.getElem?_eq_none_iff.mpr (by omega)]
    split <;> rfl

@[simp] theorem queue_makeRoom (trail : Trail) (room : Nat) :
    (trail.makeRoom room).queue = trail.queue := rfl

@[simp] theorem levelStarts_makeRoom (trail : Trail) (room : Nat) :
    (trail.makeRoom room).levelStarts = trail.levelStarts := rfl

theorem room_makeRoom (trail : Trail) (atom : Nat) :
    (trail.makeRoom atom).room = max trail.room (atom + 1) := by
  simp only [makeRoom, room, Array.size_append, Array.size_replicate]
  omega

theorem Coherent.makeRoom {trail : Trail} (coherent : trail.Coherent) (room : Nat) :
    (trail.makeRoom room).Coherent where
  placed atom entry found := coherent.placed atom entry (by simpa using found)
  recorded place literal queued := by
    obtain ⟨entry, records, same⟩ := coherent.recorded place literal queued
    exact ⟨entry, ⟨by simpa using records.1, records.2⟩, same⟩
  levelled atom entry found := coherent.levelled atom entry (by simpa using found)
  bounded := coherent.bounded
  ascending := coherent.ascending

/-- The trail without decisions is coherent. -/
theorem coherent_empty : Trail.empty.Coherent where
  placed atom entry found := by simp [record?, empty] at found
  recorded place literal queued := by simp [empty] at queued
  levelled atom entry found := by simp [record?, empty] at found
  bounded below start found := by simp [empty] at found
  ascending first second start next _ found := by simp [empty] at found

/-! ### Opening a level -/

@[simp] theorem record?_openLevel (trail : Trail) (atom : Nat) :
    trail.openLevel.record? atom = trail.record? atom := rfl

@[simp] theorem queue_openLevel (trail : Trail) : trail.openLevel.queue = trail.queue := rfl

@[simp] theorem level_openLevel (trail : Trail) : trail.openLevel.level = trail.level + 1 := by
  simp [openLevel, level]

theorem getElem?_levelStarts_openLevel (trail : Trail) (below : Nat) :
    trail.openLevel.levelStarts[below]? =
      if below = trail.level then some trail.length else trail.levelStarts[below]? := by
  simp only [openLevel, Array.getElem?_push]
  rfl

theorem Coherent.openLevel {trail : Trail} (coherent : trail.Coherent) :
    trail.openLevel.Coherent where
  placed := coherent.placed
  recorded := coherent.recorded
  levelled atom entry found := by
    obtain ⟨within, levels⟩ := coherent.levelled atom entry found
    refine ⟨by rw [level_openLevel]; omega, fun below start opened => ?_⟩
    rw [getElem?_levelStarts_openLevel] at opened
    by_cases last : below = trail.level
    · rw [if_pos last] at opened
      cases opened
      have inside := coherent.position_lt found
      omega
    · rw [if_neg last] at opened
      exact levels below start opened
  bounded below start opened := by
    rw [getElem?_levelStarts_openLevel] at opened
    by_cases last : below = trail.level
    · rw [if_pos last] at opened
      cases opened
      exact Nat.le_refl _
    · rw [if_neg last] at opened
      exact coherent.bounded below start opened
  ascending first second start next before opened opened' := by
    rw [getElem?_levelStarts_openLevel] at opened opened'
    by_cases last : second = trail.level
    · rw [if_pos last] at opened'
      cases opened'
      by_cases both : first = trail.level
      · rw [if_pos both] at opened
        cases opened
        exact Nat.le_refl _
      · rw [if_neg both] at opened
        exact coherent.bounded first start opened
    · rw [if_neg last] at opened'
      have inside := (Array.getElem?_eq_some_iff.mp opened').1
      have : first ≠ trail.level := by
        have : second < trail.level := inside
        omega
      rw [if_neg this] at opened
      exact coherent.ascending first second start next before opened opened'

/-! ### Deciding a literal -/

/-- Deciding a decided variable changes no record. -/
theorem push_of_decided {trail : Trail} {literal : Literal} {entry : Entry}
    (reason : Option ConstraintId) (decided : trail.record? literal.atom = some entry) :
    trail.push literal reason = trail.makeRoom literal.atom := by
  unfold push assign
  rw [decided]

/-- The record that a decision makes. -/
def nextEntry (trail : Trail) (literal : Literal) (reason : Option ConstraintId) : Entry :=
  ⟨literal.positive, trail.level, reason, trail.length⟩

theorem record?_push {trail : Trail} {literal : Literal} (reason : Option ConstraintId)
    (undecided : trail.record? literal.atom = none) (atom : Nat) :
    (trail.push literal reason).record? atom =
      if atom = literal.atom then some (trail.nextEntry literal reason)
      else trail.record? atom := by
  have roomy : literal.atom < (trail.makeRoom literal.atom).entries.size := by
    have := room_makeRoom trail literal.atom
    unfold room at this
    omega
  have kept := record?_makeRoom trail literal.atom atom
  unfold record? at kept
  unfold push assign
  rw [undecided]
  simp only [record?, Array.getElem?_setIfInBounds]
  by_cases same : atom = literal.atom
  · rw [if_pos same, if_pos same.symm, if_pos roomy]
    rfl
  · rw [if_neg same, if_neg fun equal => same equal.symm]
    exact kept

theorem queue_push {trail : Trail} {literal : Literal} (reason : Option ConstraintId)
    (undecided : trail.record? literal.atom = none) :
    (trail.push literal reason).queue = trail.queue.push literal := by
  unfold push assign
  rw [undecided]
  rfl

@[simp] theorem levelStarts_push (trail : Trail) (literal : Literal)
    (reason : Option ConstraintId) :
    (trail.push literal reason).levelStarts = trail.levelStarts := by
  unfold push assign
  cases trail.record? literal.atom <;> rfl

@[simp] theorem level_push (trail : Trail) (literal : Literal) (reason : Option ConstraintId) :
    (trail.push literal reason).level = trail.level := by
  unfold level
  rw [levelStarts_push]

theorem room_push (trail : Trail) (literal : Literal) (reason : Option ConstraintId) :
    (trail.push literal reason).room = max trail.room (literal.atom + 1) := by
  rw [← room_makeRoom]
  unfold push assign
  cases trail.record? literal.atom with
  | some entry => rfl
  | none => simp [room]

/-- The records before a decision stay. -/
theorem Records.push {trail : Trail} {literal : Literal} {entry : Entry}
    (records : trail.Records literal entry) (decided : Literal) (reason : Option ConstraintId) :
    (trail.push decided reason).Records literal entry := by
  refine ⟨?_, records.2⟩
  cases before : trail.record? decided.atom with
  | some other => rw [push_of_decided reason before, record?_makeRoom, records.1]
  | none =>
    rw [record?_push reason before, if_neg ?_, records.1]
    intro same
    rw [← same, records.1] at before
    cases before

theorem Coherent.push {trail : Trail} (coherent : trail.Coherent) (literal : Literal)
    (reason : Option ConstraintId) : (trail.push literal reason).Coherent := by
  cases before : trail.record? literal.atom with
  | some other =>
    rw [push_of_decided reason before]
    exact coherent.makeRoom _
  | none =>
    have grown : (trail.push literal reason).length = trail.length + 1 := by
      simp [length, queue_push reason before]
    constructor
    · intro atom entry found
      rw [record?_push reason before] at found
      rw [queue_push reason before, Array.getElem?_push]
      by_cases same : atom = literal.atom
      · rw [if_pos same] at found
        cases found
        rw [same]
        exact if_pos rfl
      · rw [if_neg same] at found
        have inside : entry.position < trail.queue.size := coherent.position_lt found
        rw [if_neg (Nat.ne_of_lt inside)]
        exact coherent.placed atom entry found
    · intro place queued found
      rw [queue_push reason before, Array.getElem?_push] at found
      by_cases last : place = trail.queue.size
      · rw [if_pos last] at found
        cases found
        refine ⟨trail.nextEntry literal reason, ⟨?_, rfl⟩, last.symm⟩
        rw [record?_push reason before, if_pos rfl]
      · rw [if_neg last] at found
        obtain ⟨entry, records, same⟩ := coherent.recorded place queued found
        exact ⟨entry, records.push literal reason, same⟩
    · intro atom entry found
      rw [record?_push reason before] at found
      rw [level_push, levelStarts_push]
      by_cases same : atom = literal.atom
      · rw [if_pos same] at found
        cases found
        refine ⟨Nat.le_refl _, fun below start opened => ?_⟩
        have within := coherent.bounded below start opened
        have inside := (Array.getElem?_eq_some_iff.mp opened).1
        exact ⟨fun _ => inside, fun _ => within⟩
      · rw [if_neg same] at found
        exact coherent.levelled atom entry found
    · intro below start opened
      rw [levelStarts_push] at opened
      have within := coherent.bounded below start opened
      omega
    · rw [levelStarts_push]
      exact coherent.ascending

/-! ### Going back -/

/-- Forgetting the records of some literals. -/
theorem join_getElem?_forget (literals : List Literal) (entries : Array (Option Entry))
    (atom : Nat) :
    ((literals.foldl (fun entries literal => entries.setIfInBounds literal.atom none)
      entries)[atom]?).join =
        if atom ∈ literals.map Literal.atom then none else (entries[atom]?).join := by
  induction literals generalizing entries with
  | nil => simp
  | cons literal rest ih =>
    rw [List.foldl_cons, ih, Array.getElem?_setIfInBounds, List.map_cons]
    by_cases later : atom ∈ rest.map Literal.atom
    · rw [if_pos later, if_pos (List.mem_cons_of_mem _ later)]
    · rw [if_neg later]
      by_cases same : literal.atom = atom
      · have here : atom ∈ literal.atom :: rest.map Literal.atom := by
          rw [same]
          exact List.mem_cons_self
        rw [if_pos same, if_pos here]
        split
        · rfl
        · rfl
      · rw [if_neg same, if_neg]
        intro inside
        rcases List.mem_cons.mp inside with equal | inside
        · exact same equal.symm
        · exact later inside

theorem size_forget (literals : List Literal) (entries : Array (Option Entry)) :
    (literals.foldl (fun entries literal => entries.setIfInBounds literal.atom none)
      entries).size = entries.size := by
  induction literals generalizing entries with
  | nil => rfl
  | cons literal rest ih => rw [List.foldl_cons, ih, Array.size_setIfInBounds]

theorem getElem?_take {α : Type} (array : Array α) (count place : Nat) :
    (array.take count)[place]? = if place < count then array[place]? else none := by
  rw [Array.take_eq_extract, Array.getElem?_extract, Nat.zero_add, Nat.sub_zero]
  by_cases below : place < count
  · rw [if_pos below]
    split
    · rfl
    · exact (Array.getElem?_eq_none_iff.mpr (by omega)).symm
  · rw [if_neg below, if_neg (by omega)]

/-- Going back to a level above which none is open changes nothing. -/
theorem revertTo_of_closed {trail : Trail} {level : Nat}
    (closed : trail.levelStarts[level]? = none) : trail.revertTo level = trail := by
  unfold revertTo
  rw [closed]

theorem revertTo_of_open {trail : Trail} {level start : Nat}
    (opened : trail.levelStarts[level]? = some start) :
    trail.revertTo level =
      { entries := (trail.queue.toList.drop start).foldl
          (fun entries literal => entries.setIfInBounds literal.atom none) trail.entries
        queue := trail.queue.take start
        levelStarts := trail.levelStarts.take level } := by
  unfold revertTo
  rw [opened]

@[simp] theorem room_revertTo (trail : Trail) (level : Nat) :
    (trail.revertTo level).room = trail.room := by
  cases opened : trail.levelStarts[level]? with
  | none => rw [revertTo_of_closed opened]
  | some start =>
    rw [revertTo_of_open opened]
    exact size_forget _ _

theorem level_revertTo (trail : Trail) (level : Nat) :
    (trail.revertTo level).level = min level trail.level := by
  cases opened : trail.levelStarts[level]? with
  | none =>
    rw [revertTo_of_closed opened]
    exact (Nat.min_eq_right (Array.getElem?_eq_none_iff.mp opened)).symm
  | some start =>
    rw [revertTo_of_open opened]
    simp [Trail.level]

theorem getElem?_levelStarts_revertTo (trail : Trail) (level below : Nat) :
    (trail.revertTo level).levelStarts[below]? =
      if below < level then trail.levelStarts[below]? else none := by
  cases opened : trail.levelStarts[level]? with
  | none =>
    rw [revertTo_of_closed opened]
    rw [Array.getElem?_eq_none_iff] at opened
    split
    · rfl
    · exact Array.getElem?_eq_none_iff.mpr (by omega)
  | some start =>
    rw [revertTo_of_open opened]
    exact getElem?_take _ _ _

theorem getElem?_queue_revertTo (trail : Trail) (level place : Nat) :
    (trail.revertTo level).queue[place]? =
      if place < trail.levelStart (level + 1) then trail.queue[place]? else none := by
  rw [levelStart_succ]
  cases opened : trail.levelStarts[level]? with
  | none =>
    rw [revertTo_of_closed opened, Option.getD_none]
    by_cases inside : place < trail.length
    · rw [if_pos inside]
    · rw [if_neg inside]
      exact Array.getElem?_eq_none_iff.mpr (Nat.le_of_not_lt inside)
  | some start =>
    rw [revertTo_of_open opened]
    exact getElem?_take _ _ _

namespace Coherent

variable {trail : Trail}

theorem levelStart_le (coherent : trail.Coherent) (level : Nat) :
    trail.levelStart level ≤ trail.length := by
  cases level with
  | zero => exact Nat.zero_le _
  | succ below =>
    rw [levelStart_succ]
    cases opened : trail.levelStarts[below]? with
    | none => exact Nat.le_refl _
    | some start => exact coherent.bounded below start opened

theorem length_revertTo (coherent : trail.Coherent) (level : Nat) :
    (trail.revertTo level).length = trail.levelStart (level + 1) := by
  have within := coherent.levelStart_le (level + 1)
  have queued := getElem?_queue_revertTo trail level
  have last := queued (trail.levelStart (level + 1))
  rw [if_neg (Nat.lt_irrefl _), Array.getElem?_eq_none_iff] at last
  refine Nat.le_antisymm last (Nat.le_of_not_lt fun short => ?_)
  have inside := queued (trail.revertTo level).length
  have outside : (trail.revertTo level).queue[(trail.revertTo level).length]? = none :=
    Array.getElem?_eq_none_iff.mpr (Nat.le_refl _)
  rw [if_pos short, outside] at inside
  have : trail.length ≤ (trail.revertTo level).length :=
    Array.getElem?_eq_none_iff.mp inside.symm
  omega

/-- **Going back to a level forgets exactly the records above it.** -/
theorem record?_revertTo (coherent : trail.Coherent) (level atom : Nat) :
    (trail.revertTo level).record? atom =
      (trail.record? atom).filter fun entry => entry.level ≤ level := by
  cases opened : trail.levelStarts[level]? with
  | none =>
    rw [revertTo_of_closed opened]
    rw [Array.getElem?_eq_none_iff] at opened
    cases found : trail.record? atom with
    | none => rfl
    | some entry =>
      have within : entry.level ≤ trail.levelStarts.size :=
        (coherent.levelled atom entry found).1
      rw [Option.filter_some, if_pos (decide_eq_true (by omega))]
  | some start =>
    have forgotten : (trail.revertTo level).record? atom =
        if atom ∈ (trail.queue.toList.drop start).map Literal.atom then none
        else trail.record? atom := by
      rw [revertTo_of_open opened]
      exact join_getElem?_forget _ _ _
    rw [forgotten]
    cases found : trail.record? atom with
    | none => split <;> rfl
    | some entry =>
      have levels := (coherent.levelled atom entry found).2 level start opened
      rw [Option.filter_some]
      by_cases above : level < entry.level
      · have behind := levels.mpr above
        have queued := coherent.placed atom entry found
        rw [if_pos, if_neg (by simpa using above)]
        refine List.mem_map.mpr ⟨⟨atom, entry.positive⟩, ?_, rfl⟩
        refine List.mem_iff_getElem?.mpr ⟨entry.position - start, ?_⟩
        rw [List.getElem?_drop, Array.getElem?_toList, Nat.add_sub_cancel' behind]
        exact queued
      · rw [if_neg, if_pos (decide_eq_true (by omega))]
        intro inside
        obtain ⟨literal, member, same⟩ := List.mem_map.mp inside
        obtain ⟨place, queued⟩ := List.mem_iff_getElem?.mp member
        rw [List.getElem?_drop, Array.getElem?_toList] at queued
        obtain ⟨other, records, position⟩ := coherent.recorded _ literal queued
        have found' := records.1
        rw [same, found] at found'
        cases found'
        exact above (levels.mp (by omega))

/-- A literal stays recorded when it was decided at the level or below it. -/
theorem records_revertTo (coherent : trail.Coherent) {level : Nat} {literal : Literal}
    {entry : Entry} :
    (trail.revertTo level).Records literal entry ↔
      trail.Records literal entry ∧ entry.level ≤ level := by
  unfold Records
  rw [coherent.record?_revertTo, Option.filter_eq_some_iff, decide_eq_true_iff]
  exact ⟨fun ⟨⟨found, low⟩, same⟩ => ⟨⟨found, same⟩, low⟩,
    fun ⟨⟨found, same⟩, low⟩ => ⟨⟨found, low⟩, same⟩⟩

theorem revertTo (coherent : trail.Coherent) (level : Nat) : (trail.revertTo level).Coherent where
  placed atom entry found := by
    rw [coherent.record?_revertTo, Option.filter_eq_some_iff, decide_eq_true_iff] at found
    rw [getElem?_queue_revertTo, if_pos ((coherent.position_lt_iff found.1 level).mpr found.2)]
    exact coherent.placed atom entry found.1
  recorded place literal queued := by
    rw [getElem?_queue_revertTo] at queued
    by_cases inside : place < trail.levelStart (level + 1)
    · rw [if_pos inside] at queued
      obtain ⟨entry, records, same⟩ := coherent.recorded place literal queued
      refine ⟨entry, coherent.records_revertTo.mpr ⟨records, ?_⟩, same⟩
      rw [← coherent.position_lt_iff records.1, same]
      exact inside
    · rw [if_neg inside] at queued
      cases queued
  levelled atom entry found := by
    rw [coherent.record?_revertTo, Option.filter_eq_some_iff, decide_eq_true_iff] at found
    obtain ⟨within, levels⟩ := coherent.levelled atom entry found.1
    refine ⟨by rw [level_revertTo]; omega, fun below start opened => ?_⟩
    rw [getElem?_levelStarts_revertTo] at opened
    split at opened
    · exact levels below start opened
    · cases opened
  bounded below start opened := by
    rw [getElem?_levelStarts_revertTo] at opened
    split at opened
    · next lower =>
      rw [coherent.length_revertTo, levelStart_succ]
      cases next : trail.levelStarts[level]? with
      | none => exact coherent.bounded below start opened
      | some place => exact coherent.ascending below level start place (by omega) opened next
    · cases opened
  ascending first second start next before opened opened' := by
    rw [getElem?_levelStarts_revertTo] at opened opened'
    split at opened <;> split at opened'
    · exact coherent.ascending first second start next before opened opened'
    all_goals first | cases opened | cases opened'

end Coherent

end Trail

end Loadout
