/-
**Going back is an exact undo.**

A trail is used by edits in any order (`Trail.Edit`): literals are decided, levels are opened, room
is made for variables, and the trail goes back to a level.

* `Coherent.consistent`: what can be asked of a coherent trail tells one story (`Consistent`): the
  queue has each decided variable once, at its position and with its value, and the level of a
  variable is the number of levels opened at or before its position.
* `Edit.revertTo_apply`: no edit above a level changes what going back to that level gives.
* `exists_lastOpening`: so going back to a level gives the state in which the next level was opened
  for the last time (`LastOpening`).
* **`history_undone`**: both hold after any edits of a trail on which nothing was decided.
-/

import Mathlib.Data.List.Induction
import Loadout.Proofs.Search.Coherence

namespace Loadout

namespace Trail

variable {trail start one other : Trail} {level : Nat}

/-! ### Edits -/

/-- A call that changes a trail. -/
inductive Edit
  /-- A literal is decided, with the constraint that forced it, if one did. -/
  | decide (literal : Literal) (reason : Option ConstraintId)
  | openLevel
  | revertTo (level : Nat)
  | makeRoom (atom : Nat)
deriving DecidableEq, Repr

/-- What an edit makes of a trail. -/
def Edit.apply (trail : Trail) : Edit → Trail
  | .decide literal reason => (trail.assign literal reason).2
  | .openLevel => trail.openLevel
  | .revertTo level => trail.revertTo level
  | .makeRoom atom => trail.makeRoom atom

@[simp] theorem Edit.apply_decide (trail : Trail) (literal : Literal)
    (reason : Option ConstraintId) :
    (Edit.decide literal reason).apply trail = trail.push literal reason := rfl

@[simp] theorem Edit.apply_openLevel (trail : Trail) :
    Edit.openLevel.apply trail = trail.openLevel := rfl

@[simp] theorem Edit.apply_revertTo (trail : Trail) (level : Nat) :
    (Edit.revertTo level).apply trail = trail.revertTo level := rfl

@[simp] theorem Edit.apply_makeRoom (trail : Trail) (atom : Nat) :
    (Edit.makeRoom atom).apply trail = trail.makeRoom atom := rfl

/-- The trail after some edits, made in turn. -/
def after (trail : Trail) (edits : List Edit) : Trail :=
  edits.foldl Edit.apply trail

theorem after_concat (trail : Trail) (edits : List Edit) (edit : Edit) :
    trail.after (edits ++ [edit]) = edit.apply (trail.after edits) := by
  unfold after
  rw [List.foldl_append]
  rfl

/-- A trail on which nothing was decided and no level was opened. -/
inductive Fresh : Trail → Prop
  | empty : Fresh .empty
  | withRoom (count : Nat) : Fresh (.withRoom count)

theorem Fresh.record? (fresh : start.Fresh) (atom : Nat) : start.record? atom = none := by
  cases fresh with
  | empty => rfl
  | withRoom count =>
    unfold Trail.record? Trail.withRoom
    rw [Array.getElem?_replicate]
    split <;> rfl

theorem Fresh.queue (fresh : start.Fresh) : start.queue = #[] := by
  cases fresh <;> rfl

theorem Fresh.levelStarts (fresh : start.Fresh) : start.levelStarts = #[] := by
  cases fresh <;> rfl

theorem Fresh.coherent (fresh : start.Fresh) : start.Coherent where
  placed atom entry found := by
    rw [fresh.record?] at found
    cases found
  recorded place literal queued := by
    rw [fresh.queue] at queued
    cases queued
  levelled atom entry found := by
    rw [fresh.record?] at found
    cases found
  bounded below start opened := by
    rw [fresh.levelStarts] at opened
    cases opened
  ascending first second start next _ opened := by
    rw [fresh.levelStarts] at opened
    cases opened

/-- **Every edit keeps a trail coherent.** -/
theorem Coherent.apply (coherent : trail.Coherent) (edit : Edit) : (edit.apply trail).Coherent := by
  cases edit with
  | decide literal reason => exact coherent.push literal reason
  | openLevel => exact coherent.openLevel
  | revertTo level => exact coherent.revertTo level
  | makeRoom atom => exact coherent.makeRoom atom

theorem Coherent.after (coherent : trail.Coherent) (edits : List Edit) :
    (trail.after edits).Coherent := by
  induction edits generalizing trail with
  | nil => exact coherent
  | cons edit rest ih => exact ih (coherent.apply edit)

/-! ### A consistent trail -/

/-- **What can be asked of a trail tells one story.** -/
structure Consistent (trail : Trail) : Prop where
  /-- The queue has each decided variable once, and no other. -/
  once : ∀ atom, (trail.queue.toList.map Literal.atom).count atom =
    if trail.decided atom then 1 else 0
  /-- It has the variables with their values. -/
  valued : ∀ literal ∈ trail.queue, trail.value? literal = some true
  /-- A variable has the position of its literal in the queue. -/
  placed : ∀ (literal : Literal) (place : Nat), trail.position? literal = some place ↔
    ∃ queued, trail.queue[place]? = some queued ∧ queued.atom = literal.atom
  /-- Its level is the number of levels that were opened at or before its position. -/
  levelled : ∀ (literal : Literal) (place : Nat), trail.position? literal = some place →
    trail.level? literal = some (trail.levelStarts.toList.countP (· ≤ place))
  /-- Later levels start later, within the queue. -/
  ascending : trail.levelStarts.toList.Pairwise (· ≤ ·)
  bounded : ∀ start ∈ trail.levelStarts, start ≤ trail.length
  /-- Nothing is known of a variable that is not decided. -/
  undecided : ∀ literal, trail.decided literal.atom = false → trail.value? literal = none ∧
    trail.level? literal = none ∧ trail.reason? literal = none ∧ trail.position? literal = none

/-- A list of which the first entries meet a test, and no others do, has as many that meet it. -/
theorem countP_of_initial {list : List Nat} {test : Nat → Bool} {count : Nat}
    (within : count ≤ list.length)
    (initial : ∀ place value, list[place]? = some value → (test value = true ↔ place < count)) :
    list.countP test = count := by
  rw [← List.take_append_drop count list, List.countP_append]
  have all : (list.take count).countP test = count := by
    rw [List.countP_eq_length.mpr, List.length_take, Nat.min_eq_left within]
    intro value inside
    obtain ⟨place, found⟩ := List.mem_iff_getElem?.mp inside
    rw [List.getElem?_take] at found
    split at found
    · next early => exact (initial place value found).mpr early
    · cases found
  have none' : (list.drop count).countP test = 0 := by
    rw [List.countP_eq_zero]
    intro value inside holds
    obtain ⟨place, found⟩ := List.mem_iff_getElem?.mp inside
    rw [List.getElem?_drop] at found
    have early := (initial _ value found).mp holds
    omega
  rw [all, none', Nat.add_zero]

theorem decided_iff {atom : Nat} :
    trail.decided atom = true ↔ ∃ entry, trail.record? atom = some entry :=
  Option.isSome_iff_exists

/-- The queue has just the decided variables. -/
theorem Coherent.mem_atoms_iff (coherent : trail.Coherent) {atom : Nat} :
    atom ∈ trail.queue.toList.map Literal.atom ↔ trail.decided atom = true := by
  rw [decided_iff, List.mem_map]
  constructor
  · rintro ⟨literal, inside, rfl⟩
    obtain ⟨place, queued⟩ := List.mem_iff_getElem?.mp inside
    rw [Array.getElem?_toList] at queued
    obtain ⟨entry, records, _⟩ := coherent.recorded place literal queued
    exact ⟨entry, records.1⟩
  · rintro ⟨entry, found⟩
    exact ⟨⟨atom, entry.positive⟩,
      Array.mem_toList_iff.mpr (Array.mem_of_getElem? (coherent.placed atom entry found)), rfl⟩

/-- The level of a record counts the levels that begin at or before its place. -/
theorem Coherent.level_eq_countP (coherent : trail.Coherent) {atom : Nat} {entry : Entry}
    (found : trail.record? atom = some entry) :
    trail.levelStarts.toList.countP (· ≤ entry.position) = entry.level := by
  obtain ⟨within, levels⟩ := coherent.levelled atom entry found
  refine countP_of_initial (by rw [Array.length_toList]; exact within) fun below start opened => ?_
  rw [Array.getElem?_toList] at opened
  rw [decide_eq_true_iff]
  exact levels below start opened

/-- **A coherent trail tells one story.** -/
theorem Coherent.consistent (coherent : trail.Coherent) : trail.Consistent where
  once atom := by
    rw [coherent.nodup_atoms.count]
    simp only [coherent.mem_atoms_iff]
  valued literal inside := by
    obtain ⟨place, queued⟩ := Array.mem_iff_getElem?.mp inside
    obtain ⟨entry, records, _⟩ := coherent.recorded place literal queued
    exact value?_eq_true_iff.mpr (isTrue_iff.mpr ⟨entry, records⟩)
  placed literal place := by
    unfold position?
    rw [Option.map_eq_some_iff]
    constructor
    · rintro ⟨entry, found, rfl⟩
      exact ⟨_, coherent.placed _ entry found, rfl⟩
    · rintro ⟨queued, there, same⟩
      obtain ⟨entry, records, here⟩ := coherent.recorded place queued there
      exact ⟨entry, by rw [← same]; exact records.1, here⟩
  levelled literal place placed := by
    obtain ⟨entry, found, rfl⟩ := Option.map_eq_some_iff.mp placed
    rw [coherent.level_eq_countP found]
    unfold level?
    rw [found]
    rfl
  ascending := by
    rw [List.pairwise_iff_getElem]
    intro first second inside inside' before
    refine coherent.ascending first second _ _ (Nat.le_of_lt before) ?_ ?_
    · rw [← Array.getElem?_toList, List.getElem?_eq_getElem inside]
    · rw [← Array.getElem?_toList, List.getElem?_eq_getElem inside']
  bounded begin inside := by
    obtain ⟨below, opened⟩ := Array.mem_iff_getElem?.mp inside
    exact coherent.bounded below begin opened
  undecided literal free := by
    have absent : trail.record? literal.atom = none :=
      Option.not_isSome_iff_eq_none.mp (Bool.eq_false_iff.mp free)
    unfold value? level? reason? position?
    rw [absent]
    exact ⟨rfl, rfl, rfl, rfl⟩

/-! ### Going back -/

/-- Two trails agree in all but their room. -/
structure SameStory (one other : Trail) : Prop where
  record : ∀ atom, one.record? atom = other.record? atom
  queue : one.queue = other.queue
  levelStarts : one.levelStarts = other.levelStarts

theorem SameStory.trans {third : Trail} (same : SameStory one other)
    (same' : SameStory other third) : SameStory one third :=
  ⟨fun atom => (same.record atom).trans (same'.record atom), same.queue.trans same'.queue,
    same.levelStarts.trans same'.levelStarts⟩

/-- The records of a coherent trail give its queue. -/
theorem Coherent.queue_eq (coherent : one.Coherent) (coherent' : other.Coherent)
    (same : ∀ atom, one.record? atom = other.record? atom) : one.queue = other.queue := by
  refine Array.ext_getElem? fun place => Option.ext fun literal => ?_
  have listed : ∀ {trail : Trail}, trail.Coherent → (trail.queue[place]? = some literal ↔
      ∃ entry, trail.Records literal entry ∧ entry.position = place) := fun coherent =>
    ⟨coherent.recorded place literal, fun ⟨entry, records, here⟩ => by
      rw [← here]
      exact coherent.queue_of_records records⟩
  rw [listed coherent, listed coherent']
  unfold Records
  rw [same]

/-- **Going back to a level gives the same where nothing up to that level differs.** -/
theorem Coherent.sameStory_revertTo (coherent : one.Coherent) (coherent' : other.Coherent)
    (records : ∀ atom, ((one.record? atom).filter fun entry => entry.level ≤ level) =
      (other.record? atom).filter fun entry => entry.level ≤ level)
    (starts : ∀ below, below < level → one.levelStarts[below]? = other.levelStarts[below]?) :
    SameStory (one.revertTo level) (other.revertTo level) := by
  have same : ∀ atom, (one.revertTo level).record? atom = (other.revertTo level).record? atom := by
    intro atom
    rw [coherent.record?_revertTo, coherent'.record?_revertTo, records]
  refine ⟨same, (coherent.revertTo level).queue_eq (coherent'.revertTo level) same, ?_⟩
  refine Array.ext_getElem? fun below => ?_
  rw [getElem?_levelStarts_revertTo, getElem?_levelStarts_revertTo]
  by_cases inside : below < level
  · rw [if_pos inside, if_pos inside, starts below inside]
  · rw [if_neg inside, if_neg inside]

/-- **No edit above a level changes what going back to it gives.** -/
theorem Edit.revertTo_apply (coherent : trail.Coherent) (edit : Edit) (above : level < trail.level)
    (above' : level < (edit.apply trail).level) :
    SameStory ((edit.apply trail).revertTo level) (trail.revertTo level) := by
  have coherent' := coherent.apply edit
  cases edit with
  | decide literal reason =>
    refine coherent'.sameStory_revertTo coherent (fun atom => ?_) fun below _ => by simp
    rw [apply_decide]
    cases before : trail.record? literal.atom with
    | some entry => rw [push_of_decided reason before, record?_makeRoom]
    | none =>
      rw [record?_push reason before]
      split
      · next same =>
        -- the new record is of the present level, which is above
        have late : ¬(trail.nextEntry literal reason).level ≤ level := Nat.not_le_of_lt above
        rw [same, before, Option.filter_some, if_neg (by simpa using late)]
        rfl
      · rfl
  | openLevel =>
    refine coherent'.sameStory_revertTo coherent (fun atom => rfl) fun below inside => ?_
    rw [apply_openLevel, getElem?_levelStarts_openLevel, if_neg (by omega)]
  | revertTo target =>
    rw [apply_revertTo, level_revertTo] at above'
    refine coherent'.sameStory_revertTo coherent (fun atom => ?_) fun below inside => ?_
    · rw [apply_revertTo, coherent.record?_revertTo, Option.filter_filter]
      congr 1
      funext entry
      rw [Bool.eq_iff_iff, Bool.and_eq_true, decide_eq_true_iff, decide_eq_true_iff]
      omega
    · rw [apply_revertTo, getElem?_levelStarts_revertTo, if_pos (by omega)]
  | makeRoom room =>
    exact coherent'.sameStory_revertTo coherent (fun atom => by simp) fun below _ => rfl

/-- Opening a level is undone by going back to the level before it. -/
theorem Coherent.revertTo_openLevel (coherent : trail.Coherent) :
    SameStory (trail.openLevel.revertTo trail.level) trail := by
  have stays : trail.revertTo trail.level = trail :=
    revertTo_of_closed (Array.getElem?_eq_none_iff.mpr (Nat.le_refl _))
  have same : SameStory (trail.openLevel.revertTo trail.level) (trail.revertTo trail.level) :=
    coherent.openLevel.sameStory_revertTo coherent (fun atom => rfl) fun below inside => by
      rw [getElem?_levelStarts_openLevel, if_neg (Nat.ne_of_lt inside)]
  rwa [stays] at same

/-- Only opening a level raises the level. -/
theorem Edit.level_apply_le (edit : Edit) (other : edit ≠ .openLevel) :
    (edit.apply trail).level ≤ trail.level := by
  cases edit with
  | decide literal reason => exact Nat.le_of_eq (level_push trail literal reason)
  | openLevel => exact absurd rfl other
  | revertTo target =>
    rw [apply_revertTo, level_revertTo]
    exact Nat.min_le_right _ _
  | makeRoom room => exact Nat.le_refl trail.level

/-! ### Histories -/

/-- **The last time at which the level above a given one was opened**: the edits up to then, and
the later ones, none of which opened it again. -/
structure LastOpening (start : Trail) (level : Nat) (edits before later : List Edit) : Prop where
  split : edits = before ++ .openLevel :: later
  here : (start.after before).level = level
  last : ∀ between rest, later = between ++ .openLevel :: rest →
    (start.after (before ++ .openLevel :: between)).level ≠ level

/-- An edit that does not open the level leaves its last opening what it was. -/
theorem LastOpening.concat {edits before later : List Edit}
    (opening : LastOpening start level edits before later) {edit : Edit}
    (other : edit = .openLevel → (start.after edits).level ≠ level) :
    LastOpening start level (edits ++ [edit]) before (later ++ [edit]) where
  split := by rw [opening.split, List.append_assoc, List.cons_append]
  here := opening.here
  last between rest same := by
    rcases List.eq_nil_or_concat rest with rfl | ⟨earlier, final, rfl⟩
    · obtain ⟨rfl, same'⟩ := List.append_inj' same rfl
      rw [← opening.split]
      exact other (List.head_eq_of_cons_eq same')
    · rw [List.concat_eq_append, ← List.cons_append, ← List.append_assoc] at same
      exact opening.last between earlier (List.append_inj' same rfl).1

/-- **Going back to a level gives the state in which the next one was opened for the last time.**
The induction is on the edits from their end: either the last one opens the level, or it was open
before and what going back gives is still the same. -/
theorem exists_lastOpening (coherent : start.Coherent) (flat : start.level = 0)
    (edits : List Edit) (inside : level < (start.after edits).level) :
    ∃ before later, LastOpening start level edits before later ∧
      SameStory ((start.after edits).revertTo level) (start.after before) := by
  induction edits using List.reverseRecOn with
  | nil =>
    have none' : level < start.level := inside
    omega
  | append_singleton edits edit ih =>
    have coherent' := coherent.after edits
    rw [after_concat] at inside ⊢
    by_cases opens : edit = .openLevel ∧ (start.after edits).level = level
    · obtain ⟨rfl, here⟩ := opens
      refine ⟨edits, [], ⟨rfl, here, fun between rest impossible => ?_⟩, ?_⟩
      · exact absurd impossible.symm (List.append_ne_nil_of_right_ne_nil _ (List.cons_ne_nil _ _))
      · rw [← here]
        exact coherent'.revertTo_openLevel
    · have other : edit = .openLevel → (start.after edits).level ≠ level := fun same here =>
        opens ⟨same, here⟩
      have above : level < (start.after edits).level := by
        by_cases opening : edit = .openLevel
        · have differs := other opening
          rw [opening, Edit.apply_openLevel, level_openLevel] at inside
          omega
        · exact Nat.lt_of_lt_of_le inside (edit.level_apply_le opening)
      obtain ⟨before, later, opening, same⟩ := ih above
      exact ⟨before, later ++ [edit], opening.concat other,
        (edit.revertTo_apply coherent' above inside).trans same⟩

/-- What is asked of two trails that agree has the same answers. -/
theorem SameStory.answers (same : SameStory one other) (literal : Literal) :
    one.value? literal = other.value? literal ∧ one.level? literal = other.level? literal ∧
      one.reason? literal = other.reason? literal ∧
      one.position? literal = other.position? literal := by
  unfold value? level? reason? position?
  rw [same.record]
  exact ⟨rfl, rfl, rfl, rfl⟩

/-- **A trail is consistent, and going back is an exact undo.** After any edits of a trail on which
nothing was decided: what can be asked of it tells one story, and for every level below the present
one there is a last time at which the next level was opened, and going back to the level gives the
values, levels, reasons and positions of all variables, the queue and the starts of levels that the
trail had then. -/
theorem history_undone (fresh : start.Fresh) (edits : List Edit) :
    (start.after edits).Consistent ∧
    ∀ level, level < (start.after edits).level →
      ∃ before later, LastOpening start level edits before later ∧
        (∀ literal,
          ((start.after edits).revertTo level).value? literal =
            (start.after before).value? literal ∧
          ((start.after edits).revertTo level).level? literal =
            (start.after before).level? literal ∧
          ((start.after edits).revertTo level).reason? literal =
            (start.after before).reason? literal ∧
          ((start.after edits).revertTo level).position? literal =
            (start.after before).position? literal) ∧
        ((start.after edits).revertTo level).queue = (start.after before).queue ∧
        ((start.after edits).revertTo level).levelStarts = (start.after before).levelStarts := by
  have coherent := fresh.coherent
  have flat : start.level = 0 := by
    unfold Trail.level
    rw [fresh.levelStarts]
    rfl
  refine ⟨(coherent.after edits).consistent, fun level inside => ?_⟩
  obtain ⟨before, later, opening, same⟩ := exists_lastOpening coherent flat edits inside
  exact ⟨before, later, opening, same.answers, same.queue, same.levelStarts⟩

/-- A history in which the second level is opened, left together with an empty third one, and opened
again. -/
def reopened : List Edit :=
  [.decide ⟨1, true⟩ none, .openLevel, .decide ⟨2, false⟩ none, .openLevel, .openLevel,
    .decide ⟨3, true⟩ (some 7), .revertTo 1, .makeRoom 9, .openLevel, .decide ⟨4, true⟩ (some 2)]

/-- Going back to the first level gives the queue that there was when the second one was opened
again. -/
theorem history_undone_of_reopened :
    Fresh .empty ∧ (Trail.empty.after reopened).Consistent ∧ 1 < (Trail.empty.after reopened).level ∧
      ∃ before later, LastOpening .empty 1 reopened before later ∧
        ((Trail.empty.after reopened).revertTo 1).queue = (Trail.empty.after before).queue := by
  obtain ⟨consistent, undone⟩ := history_undone .empty reopened
  obtain ⟨before, later, opening, _, queue, _⟩ := undone 1 (by decide)
  exact ⟨.empty, consistent, by decide, before, later, opening, queue⟩

end Trail

end Loadout
