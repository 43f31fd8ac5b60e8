/-
**A walk back over the trail resolves a conflict.**

`Gathered` is what holds along the walk back over the trail: the marked variables are those of the
*opened* literals, which are true at the present level, and of the *lower* ones, which are false
below it; and no assignment that satisfies the constraints makes all opened literals true and all
lower ones false.

* `Gathered.absorbAll`, `Gathered.resolve`: taking in the literals of a conflict keeps this, and so
  does replacing an opened literal by those that forced it;
* **`walkBack_spec`**: the walk ends at one last literal of the present level, because every other
  opened literal is forced and is replaced by earlier ones.
-/

import Loadout.Proofs.Search.Marks

namespace Loadout

namespace Solver

variable {solver : Solver} {done : Nat}

/-! ### The invariant of the walk -/

/-- **What a walk back has gathered**, with some false literals still to be taken in. -/
structure Gathered (solver : Solver) (incoming opened : List Literal)
    (gathering : Gathering) : Prop where
  remarked : Remarked solver gathering.solver
  /-- The opened literals are true at the present level. -/
  present : ∀ literal ∈ opened, ∃ entry,
    solver.trail.Records literal entry ∧ entry.level = solver.trail.level
  /-- The lower literals are false, and were decided below the present level. -/
  past : ∀ literal ∈ gathering.lower, ∃ entry, solver.trail.Records (-literal) entry ∧
    0 < entry.level ∧ entry.level < solver.trail.level
  marked : ∀ atom, gathering.solver.isMarked atom = true ↔
    atom ∈ opened.map Literal.atom ∨ atom ∈ gathering.lower.toList.map Literal.atom
  openedOnce : (opened.map Literal.atom).Nodup
  lowerOnce : (gathering.lower.toList.map Literal.atom).Nodup
  pending : gathering.pending = opened.length
  /-- Something gathered or still to be taken in helps. -/
  implied : ∀ assignment, solver.Satisfies assignment →
    (∃ literal ∈ incoming, literal.holds assignment = true) ∨
    (∃ literal ∈ opened, literal.holds assignment = false) ∨
    ∃ literal ∈ gathering.lower, literal.holds assignment = true

namespace Gathered

variable {incoming opened : List Literal} {gathering : Gathering}

/-- The variable of a literal that has been taken in is marked. -/
theorem isMarked_opened (gathered : Gathered solver incoming opened gathering) {literal : Literal}
    (inside : literal ∈ opened) : gathering.solver.isMarked literal.atom = true :=
  (gathered.marked literal.atom).mpr (Or.inl (List.mem_map_of_mem inside))

/-- At a place of the present level, the marked literal is an opened one. -/
theorem isMarked_iff (gathered : Gathered solver incoming opened gathering) {literal : Literal}
    {entry : Entry} (records : solver.trail.Records literal entry)
    (present : entry.level = solver.trail.level) :
    gathering.solver.isMarked literal.atom = true ↔ literal ∈ opened := by
  refine ⟨fun marked => ?_, gathered.isMarked_opened⟩
  rcases (gathered.marked literal.atom).mp marked with inside | inside
  · obtain ⟨other, member, same⟩ := List.mem_map.mp inside
    obtain ⟨record, recorded, _⟩ := gathered.present other member
    rw [← Trail.eq_of_records recorded records same]
    exact member
  · obtain ⟨other, member, same⟩ := List.mem_map.mp inside
    obtain ⟨record, recorded, _, below⟩ := gathered.past other (by simpa using member)
    have found := recorded.1
    rw [Literal.neg_atom, same, records.1] at found
    cases found
    omega

/-- A literal may be left out when something gathered helps whenever it does. -/
theorem skip {literal : Literal}
    (gathered : Gathered solver (literal :: incoming) opened gathering)
    (helps : ∀ assignment, solver.Satisfies assignment → literal.holds assignment = true →
      (∃ other ∈ opened, other.holds assignment = false) ∨
      ∃ other ∈ gathering.lower, other.holds assignment = true) :
    Gathered solver incoming opened gathering := by
  refine { gathered with implied := fun assignment satisfied => ?_ }
  rcases gathered.implied assignment satisfied with ⟨other, inside, holds⟩ | rest
  · rcases List.mem_cons.mp inside with rfl | later
    · exact Or.inr (helps assignment satisfied holds)
    · exact Or.inl ⟨other, later, holds⟩
  · exact Or.inr rest

/-- A marked variable has been taken in already. -/
theorem skip_marked {literal : Literal}
    (gathered : Gathered solver (literal :: incoming) opened gathering) {entry : Entry}
    (records : solver.trail.Records (-literal) entry)
    (marked : gathering.solver.isMarked literal.atom = true) :
    Gathered solver incoming opened gathering := by
  refine gathered.skip fun assignment _ holds => ?_
  rcases (gathered.marked literal.atom).mp marked with here | here
  · obtain ⟨other, inside, same⟩ := List.mem_map.mp here
    obtain ⟨record, recorded, _⟩ := gathered.present other inside
    refine Or.inl ⟨other, inside, ?_⟩
    rw [Trail.eq_of_records recorded records same, Literal.holds_neg, holds]
    rfl
  · obtain ⟨other, inside, same⟩ := List.mem_map.mp here
    have member : other ∈ gathering.lower := by simpa using inside
    obtain ⟨record, recorded, _⟩ := gathered.past other member
    have equal : -other = -literal := Trail.eq_of_records recorded records same
    refine Or.inr ⟨other, member, ?_⟩
    rw [← Literal.neg_neg other, equal, Literal.neg_neg]
    exact holds

/-- An unmarked literal of the present level is opened. -/
theorem addOpened {literal : Literal}
    (gathered : Gathered solver (literal :: incoming) opened gathering) {entry : Entry}
    (records : solver.trail.Records (-literal) entry)
    (unmarked : gathering.solver.isMarked literal.atom = false)
    (roomy : literal.atom < gathering.solver.marks.size)
    (present : entry.level = solver.trail.level) :
    Gathered solver incoming (-literal :: opened)
      { gathering with
        solver := gathering.solver.mark literal.atom true
        pending := gathering.pending + 1 } where
  remarked := gathered.remarked.trans (Remarked.mark gathering.solver literal.atom true)
  present other inside := by
    rcases List.mem_cons.mp inside with rfl | inside
    · exact ⟨entry, records, present⟩
    · exact gathered.present other inside
  past := gathered.past
  marked atom := by
    rw [isMarked_mark roomy]
    by_cases here : atom = literal.atom
    · simp [here]
    · rw [if_neg here, gathered.marked]
      simp [here]
  openedOnce := by
    refine List.nodup_cons.mpr ⟨fun inside => ?_, gathered.openedOnce⟩
    rw [Literal.neg_atom] at inside
    rw [(gathered.marked literal.atom).mpr (Or.inl inside)] at unmarked
    cases unmarked
  lowerOnce := gathered.lowerOnce
  pending := by rw [gathered.pending, List.length_cons]
  implied assignment satisfied := by
    rcases gathered.implied assignment satisfied with ⟨other, inside, holds⟩ | rest
    · rcases List.mem_cons.mp inside with rfl | later
      · refine Or.inr (Or.inl ⟨-other, List.mem_cons_self, ?_⟩)
        rw [Literal.holds_neg, holds]
        rfl
      · exact Or.inl ⟨other, later, holds⟩
    · rcases rest with ⟨other, inside, fails⟩ | lower
      · exact Or.inr (Or.inl ⟨other, List.mem_cons_of_mem _ inside, fails⟩)
      · exact Or.inr (Or.inr lower)

/-- An unmarked literal from below the present level is kept for the learned clause. -/
theorem addLower {literal : Literal}
    (gathered : Gathered solver (literal :: incoming) opened gathering) {entry : Entry}
    (records : solver.trail.Records (-literal) entry)
    (unmarked : gathering.solver.isMarked literal.atom = false)
    (roomy : literal.atom < gathering.solver.marks.size)
    (past : 0 < entry.level ∧ entry.level < solver.trail.level) :
    Gathered solver incoming opened
      { gathering with
        solver := gathering.solver.mark literal.atom true
        lower := gathering.lower.push literal } where
  remarked := gathered.remarked.trans (Remarked.mark gathering.solver literal.atom true)
  present := gathered.present
  past other inside := by
    rcases Array.mem_push.mp inside with inside | rfl
    · exact gathered.past other inside
    · exact ⟨entry, records, past⟩
  marked atom := by
    rw [isMarked_mark roomy]
    by_cases here : atom = literal.atom
    · simp [here]
    · rw [if_neg here, gathered.marked]
      simp [here]
  openedOnce := gathered.openedOnce
  lowerOnce := by
    rw [Array.toList_push, List.map_append, List.nodup_append]
    refine ⟨gathered.lowerOnce, List.nodup_singleton _, fun atom inside other last equal => ?_⟩
    rw [List.map_singleton, List.mem_singleton] at last
    rw [equal, last] at inside
    rw [(gathered.marked literal.atom).mpr (Or.inr inside)] at unmarked
    cases unmarked
  pending := gathered.pending
  implied assignment satisfied := by
    rcases gathered.implied assignment satisfied with ⟨other, inside, holds⟩ | rest
    · rcases List.mem_cons.mp inside with rfl | later
      · exact Or.inr (Or.inr ⟨other, Array.mem_push_self, holds⟩)
      · exact Or.inl ⟨other, later, holds⟩
    · rcases rest with same | ⟨other, inside, holds⟩
      · exact Or.inr (Or.inl same)
      · exact Or.inr (Or.inr ⟨other, Array.mem_push_of_mem _ inside, holds⟩)

/-- **Taking in one false literal.** -/
theorem absorb (grounded : solver.Grounded) (supported : solver.Supported)
    (above : 0 < solver.trail.level) {literal : Literal}
    (gathered : Gathered solver (literal :: incoming) opened gathering) {entry : Entry}
    (records : solver.trail.Records (-literal) entry) :
    ∃ more, Gathered solver incoming (more ++ opened)
        (Gathering.absorb solver.trail.level gathering literal) ∧
      (∀ other ∈ more, other = -literal) ∧
      (entry.level = solver.trail.level → -literal ∈ more ++ opened) := by
  have found : solver.trail.record? literal.atom = some entry := records.1
  have nothing : ∀ other ∈ ([] : List Literal), other = -literal := fun other inside => by
    cases inside
  unfold Gathering.absorb
  by_cases marked : gathering.solver.isMarked literal.atom = true
  · rw [if_pos marked]
    exact ⟨[], gathered.skip_marked records marked, nothing,
      fun present => (gathered.isMarked_iff records present).mp marked⟩
  · rw [if_neg marked]
    have unmarked : gathering.solver.isMarked literal.atom = false := by simpa using marked
    have roomy : literal.atom < gathering.solver.marks.size := by
      rw [gathered.remarked.size]
      exact grounded.markable found
    have level : gathering.solver.trail.level? literal = some entry.level := by
      unfold Trail.level?
      rw [gathered.remarked.trail, found]
      rfl
    have within := (grounded.coherent.levelled _ entry found).1
    rw [level]
    match height : entry.level with
    | 0 =>
      refine ⟨[], gathered.skip fun assignment satisfied holds => ?_, nothing, by omega⟩
      have fact := supported.fact grounded satisfied records height
      rw [Literal.holds_neg, holds] at fact
      cases fact
    | below + 1 =>
      dsimp only
      by_cases present : below + 1 = solver.trail.level
      · rw [if_pos present]
        exact ⟨[-literal], gathered.addOpened records unmarked roomy (height.trans present),
          fun other inside => List.mem_singleton.mp inside, fun _ => List.mem_cons_self⟩
      · rw [if_neg present]
        exact ⟨[], gathered.addLower records unmarked roomy (by omega), nothing,
          fun level => absurd level present⟩

/-- **Taking in some false literals.** -/
theorem absorbAll (grounded : solver.Grounded) (supported : solver.Supported)
    (above : 0 < solver.trail.level) (literals : List Literal) (gathering : Gathering)
    (opened : List Literal)
    (gathered : Gathered solver literals opened gathering)
    (isFalse : ∀ literal ∈ literals, solver.trail.isFalse literal = true) :
    ∃ more, Gathered solver [] (more ++ opened)
        (gathering.absorbAll solver.trail.level literals) ∧
      (∀ other ∈ more, -other ∈ literals) ∧
      ∀ literal ∈ literals, ∀ entry, solver.trail.Records (-literal) entry →
        entry.level = solver.trail.level → -literal ∈ more ++ opened := by
  induction literals generalizing gathering opened with
  | nil => exact ⟨[], gathered, fun _ inside => absurd inside List.not_mem_nil,
      fun _ inside => absurd inside List.not_mem_nil⟩
  | cons literal rest ih =>
    obtain ⟨entry, records⟩ := Trail.isFalse_iff.mp (isFalse literal List.mem_cons_self)
    obtain ⟨first, gathered', same, present⟩ := gathered.absorb grounded supported above records
    obtain ⟨later, gathered'', inside, present'⟩ := ih _ _ gathered'
      fun other member => isFalse other (List.mem_cons_of_mem _ member)
    refine ⟨later ++ first, by rw [List.append_assoc]; exact gathered'', fun other member => ?_,
      fun other member record recorded level => ?_⟩
    · rcases List.mem_append.mp member with new | old
      · exact List.mem_cons_of_mem _ (inside other new)
      · rw [same other old, Literal.neg_neg]
        exact List.mem_cons_self
    · rw [List.append_assoc]
      rcases List.mem_cons.mp member with rfl | member
      · rw [recorded.unique records] at level
        exact List.mem_append_right _ (present level)
      · exact present' other member record recorded level

/-- **Closing an opened literal** leaves its opposite to be explained. -/
theorem close (gathered : Gathered solver [] opened gathering) {literal : Literal}
    (inside : literal ∈ opened) :
    Gathered solver [-literal] (opened.erase literal)
      { gathering with
        solver := gathering.solver.mark literal.atom false
        pending := gathering.pending - 1 } where
  remarked := gathered.remarked.trans (Remarked.mark gathering.solver literal.atom false)
  present other member := gathered.present other (List.mem_of_mem_erase member)
  past := gathered.past
  marked atom := by
    obtain ⟨entry, records, present⟩ := gathered.present literal inside
    have split := (List.perm_cons_erase inside).map Literal.atom
    rw [isMarked_clear]
    by_cases here : atom = literal.atom
    · rw [if_pos here, here]
      have once := split.nodup_iff.mp gathered.openedOnce
      rw [List.map_cons, List.nodup_cons] at once
      refine ⟨fun impossible => absurd impossible Bool.false_ne_true, fun either => ?_⟩
      rcases either with still | lower
      · exact absurd still once.1
      · obtain ⟨other, member, same⟩ := List.mem_map.mp lower
        obtain ⟨record, recorded, _, below⟩ := gathered.past other (by simpa using member)
        have found := recorded.1
        rw [Literal.neg_atom, same, records.1] at found
        cases found
        omega
    · rw [if_neg here, gathered.marked, split.mem_iff, List.map_cons, List.mem_cons]
      simp [here]
  openedOnce := (gathered.openedOnce).sublist (List.erase_sublist.map _)
  lowerOnce := gathered.lowerOnce
  pending := by
    rw [gathered.pending, List.length_erase_of_mem inside]
  implied assignment satisfied := by
    rcases gathered.implied assignment satisfied with ⟨_, impossible, _⟩ | rest
    · cases impossible
    · rcases rest with ⟨other, member, fails⟩ | lower
      · by_cases same : other = literal
        · refine Or.inl ⟨-literal, List.mem_singleton_self _, ?_⟩
          rw [Literal.holds_neg, ← same, fails]
          rfl
        · exact Or.inr (Or.inl ⟨other, (List.mem_erase_of_ne same).mpr member, fails⟩)
      · exact Or.inr (Or.inr lower)

/-- The reason of a literal explains its opposite. -/
theorem explain {literal : Literal} {literals : List Literal}
    (gathered : Gathered solver [-literal] opened gathering)
    (explains : ∀ assignment, solver.Satisfies assignment → literal.holds assignment = false →
      ∃ other ∈ literals, other.holds assignment = true) :
    Gathered solver literals opened gathering := by
  refine { gathered with implied := fun assignment satisfied => ?_ }
  rcases gathered.implied assignment satisfied with ⟨other, inside, holds⟩ | rest
  · rw [List.mem_singleton.mp inside, Literal.holds_neg] at holds
    exact Or.inl (explains assignment satisfied (by simpa using holds))
  · exact Or.inr rest

end Gathered

/-! ### The walk -/

/-- Some literals stand before a place of the queue. -/
def Before (solver : Solver) (place : Nat) (literals : List Literal) : Prop :=
  ∀ literal ∈ literals, ∀ entry, solver.trail.Records literal entry → entry.position < place

/-- Literals before the next place that are not the one at this place stand before this place. -/
theorem Before.pred (coherent : solver.trail.Coherent) {place : Nat} {literals : List Literal}
    (before : solver.Before (place + 1) literals) {literal : Literal}
    (queued : solver.trail.queue[place]? = some literal) (absent : literal ∉ literals) :
    solver.Before place literals := by
  intro other member record recorded
  have below := before other member record recorded
  by_contra late
  have same := coherent.queue_of_records recorded
  rw [show record.position = place by omega, queued] at same
  rw [← Option.some.inj same] at member
  exact absent member

/-- A literal of the present level that has another one of it before itself was forced. -/
theorem Supported.forced_of_earlier (coherent : solver.trail.Coherent)
    (supported : solver.Supported) {literal other : Literal} {entry record : Entry}
    (records : solver.trail.Records literal entry)
    (recorded : solver.trail.Records other record) (same : entry.level = record.level)
    (earlier : record.position < entry.position) :
    ∃ reason stored, entry.reason = some reason ∧ solver.constraints[reason]? = some stored ∧
      stored.Forces solver.trail literal entry.position := by
  cases given : entry.reason with
  | none =>
    obtain ⟨below, height, start⟩ := supported.free _ entry records.1 given
    have behind := ((coherent.levelled _ record recorded.1).2 below _ start).mpr (by omega)
    omega
  | some reason =>
    obtain ⟨stored, found, forces⟩ := supported.forced _ entry reason records.1 given
    rw [records.2] at forces
    exact ⟨reason, stored, rfl, found, forces⟩

/-- **An opened literal with another one before it is replaced** by the literals that forced it,
all of which stand before it. -/
theorem Gathered.resolve (grounded : solver.Grounded) (supported : solver.Supported)
    (above : 0 < solver.trail.level) {gathering : Gathering} {opened : List Literal}
    (gathered : Gathered solver [] opened gathering) {place : Nat}
    (before : solver.Before (place + 1) opened) {literal : Literal} (member : literal ∈ opened)
    {entry : Entry} (records : solver.trail.Records literal entry) (here : entry.position = place)
    (present : entry.level = solver.trail.level) {other : Literal}
    (still : other ∈ opened.erase literal) :
    ∃ reason more, (gathering.solver.mark literal.atom false).trail.reason? literal = some reason ∧
      Gathered solver [] (more ++ opened.erase literal)
        (Gathering.absorbAll solver.trail.level
          ((gathering.solver.mark literal.atom false).reasonLiterals reason literal)
          { gathering with
            solver := gathering.solver.mark literal.atom false
            pending := gathering.pending - 1 }) ∧
      solver.Before place (more ++ opened.erase literal) := by
  have coherent := grounded.coherent
  have closed := gathered.close member
  have once : opened.Nodup := List.Nodup.of_map _ gathered.openedOnce
  have queued : solver.trail.queue[place]? = some literal :=
    here ▸ coherent.queue_of_records records
  have earlier : solver.Before place (opened.erase literal) :=
    Before.pred coherent (fun other inside => before other (List.mem_of_mem_erase inside)) queued
      once.not_mem_erase
  -- The other one stands on the same level, so the literal was forced.
  obtain ⟨record, recorded, level⟩ := closed.present other still
  have lower := earlier other still record recorded
  obtain ⟨reason, stored, given, found, forces⟩ :=
    supported.forced_of_earlier coherent records recorded (by omega) (by omega)
  obtain ⟨isFalse, explains⟩ := reasonLiterals_spec found records forces
  obtain ⟨more, gathered', new, _⟩ := (closed.explain explains).absorbAll grounded supported above
    _ _ _ fun other inside => by
      obtain ⟨record, recorded, _⟩ := isFalse other inside
      exact Trail.isFalse_iff.mpr ⟨record, recorded⟩
  refine ⟨reason, more, ?_, ?_, fun side inside record found => ?_⟩
  · unfold Trail.reason?
    rw [closed.remarked.trail, records.1]
    exact given
  · rw [closed.remarked.reasonLiterals]
    exact gathered'
  · rcases List.mem_append.mp inside with fresh | old
    · obtain ⟨known, recorded', position⟩ := isFalse _ (new side fresh)
      rw [Literal.neg_neg] at recorded'
      rw [found.unique recorded']
      omega
    · exact earlier side old record found

/-- **The walk back ends at one literal of the present level**, whose opposite or a lower literal
holds wherever the constraints do. All opened literals stand before the place reached. -/
theorem walkBack_spec (grounded : solver.Grounded) (supported : solver.Supported)
    (above : 0 < solver.trail.level) (length : Nat) (gathering : Gathering) (opened : List Literal)
    (gathered : Gathered solver [] opened gathering) (before : solver.Before length opened)
    (nonempty : opened ≠ []) :
    (∃ entry, solver.trail.Records (walkBack solver.trail.level length gathering).1 entry ∧
      entry.level = solver.trail.level) ∧
    Gathered solver [-(walkBack solver.trail.level length gathering).1] []
      (walkBack solver.trail.level length gathering).2 := by
  have coherent := grounded.coherent
  obtain ⟨witness, opening⟩ := List.exists_mem_of_ne_nil _ nonempty
  obtain ⟨first, recorded, level⟩ := gathered.present witness opening
  have early := before witness opening first recorded
  induction length generalizing gathering opened witness first with
  | zero => exact absurd early (Nat.not_lt_zero _)
  | succ length ih =>
    have inside := coherent.position_lt recorded.1
    unfold walkBack
    rw [gathered.remarked.trail]
    cases queued : solver.trail.queue[length]? with
    | none =>
      have ended : solver.trail.length ≤ length := Array.getElem?_eq_none_iff.mp queued
      refine ih gathering opened gathered (fun literal inside entry records => ?_) nonempty
        witness opening first recorded level (by omega)
      have placed := coherent.position_lt records.1
      omega
    | some literal =>
      obtain ⟨entry, records, here⟩ := coherent.recorded length literal queued
      -- An opened literal stands at or before this place, so this one belongs to the level.
      have present : entry.level = solver.trail.level := by
        have rises := coherent.level_mono recorded.1 records.1 (by omega)
        have within := (coherent.levelled _ entry records.1).1
        omega
      have marked := gathered.isMarked_iff records present
      dsimp only
      by_cases member : literal ∈ opened
      · rw [if_pos (by rw [marked.mpr member]; rfl), gathered.pending,
          ← List.length_erase_of_mem member]
        cases rest : opened.erase literal with
        | nil =>
          have closed := gathered.close member
          rw [rest, gathered.pending, ← List.length_erase_of_mem member, rest] at closed
          exact ⟨⟨entry, records, present⟩, closed⟩
        | cons other others =>
          have still : other ∈ opened.erase literal := by
            rw [rest]
            exact List.mem_cons_self
          obtain ⟨reason, more, given, gathered', before'⟩ := gathered.resolve grounded supported
            above before member records here present still
          have still' := List.mem_append_right more still
          obtain ⟨record, found, level'⟩ := gathered'.present other still'
          rw [if_neg (by simp), given, ← rest, List.length_erase_of_mem member, ← gathered.pending]
          exact ih _ _ gathered' before' (List.ne_nil_of_mem still') other still' record found
            level' (before' other still' record found)
      · have unmarked : gathering.solver.isMarked literal.atom = false := by
          rw [← Bool.not_eq_true, marked]
          exact member
        have later := Before.pred coherent before queued member
        have early' := later witness opening first recorded
        rw [if_neg (by
          rw [unmarked]
          simp only [Bool.false_or, beq_iff_eq]
          omega)]
        exact ih gathering opened gathered later nonempty witness opening first recorded level
          early'

end Solver

end Loadout
