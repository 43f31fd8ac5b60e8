/-
**Every round makes the profile of the trail greater.**

The *profile* of a trail (`Trail.profile`) is a word with a `false` for each level and a `true` for
each decided literal, in the order in which they came. Words are ordered like the entries of a
dictionary in which `true` comes after `false`; `rank` counts the words before a given one among
those of a bounded length.

* `rank_lt`: there are fewer than `2 ^ (bound + 1)` words up to a length;
* `rank_extend`, `rank_replace`: a word becomes greater when it is extended, and when a part that
  starts with `false` is replaced by `true`;
* **`Moves.rank_lt`**: so it does in every round that goes on, since such a round opens a level, or
  goes back before the opening of a level and decides a literal there.
-/

import Loadout.Proofs.Search.Rounds
import Mathlib.Algebra.Group.Nat.Defs

namespace Loadout

/-! ### Words -/

/-- How many words of a bounded length come before a given one. -/
def rank : Nat → List Bool → Nat
  | 0, _ => 0
  | _ + 1, [] => 0
  | bound + 1, false :: rest => 1 + rank bound rest
  | bound + 1, true :: rest => 2 ^ (bound + 1) + rank bound rest

theorem rank_lt (bound : Nat) (word : List Bool) : rank bound word + 2 ≤ 2 ^ (bound + 1) := by
  induction bound generalizing word with
  | zero => exact Nat.le_refl 2
  | succ bound ih =>
    have power : 2 ^ (bound + 1 + 1) = 2 ^ (bound + 1) + 2 ^ (bound + 1) := by
      rw [Nat.pow_succ, Nat.mul_two]
    cases word with
    | nil =>
      have below := ih []
      simp only [rank]
      omega
    | cons letter rest =>
      have below := ih rest
      cases letter <;> simp only [rank] <;> omega

/-- Words with a common beginning compare by what follows. -/
theorem rank_append_lt {bound : Nat} (start : List Bool) {first second : List Bool}
    (less : rank (bound - start.length) first < rank (bound - start.length) second) :
    rank bound (start ++ first) < rank bound (start ++ second) := by
  induction start generalizing bound with
  | nil => exact less
  | cons letter rest ih =>
    cases bound with
    | zero =>
      rw [Nat.zero_sub] at less
      exact absurd less (Nat.lt_irrefl 0)
    | succ bound =>
      rw [List.length_cons, Nat.add_sub_add_right] at less
      have later := ih less
      cases letter <;> simp only [List.cons_append, rank] <;> omega

/-- A word becomes greater when it is extended. -/
theorem rank_extend {bound : Nat} (start : List Bool) (letter : Bool) (rest : List Bool)
    (within : start.length < bound) : rank bound start < rank bound (start ++ letter :: rest) := by
  have first : rank (bound - start.length) [] < rank (bound - start.length) (letter :: rest) := by
    obtain ⟨left, more⟩ := Nat.exists_eq_add_of_lt (Nat.sub_pos_of_lt within)
    rw [more, Nat.zero_add]
    have power := Nat.two_pow_pos (left + 1)
    cases letter <;> simp only [rank] <;> omega
  have longer := rank_append_lt start first
  rwa [List.append_nil] at longer

/-- No word becomes less when it is extended. -/
theorem rank_le_append (bound : Nat) (start rest : List Bool) :
    rank bound start ≤ rank bound (start ++ rest) := by
  induction start generalizing bound with
  | nil => cases bound <;> exact Nat.zero_le _
  | cons letter start ih =>
    cases bound with
    | zero => exact Nat.le_refl 0
    | succ bound =>
      have later := ih bound
      cases letter <;> simp only [List.cons_append, rank] <;> omega

/-- A word becomes greater when a `false` and what follows it is replaced by `true`. -/
theorem rank_replace {bound : Nat} (start rest : List Bool) (within : start.length < bound) :
    rank bound (start ++ false :: rest) < rank bound (start ++ [true]) := by
  refine rank_append_lt start ?_
  obtain ⟨left, more⟩ := Nat.exists_eq_add_of_lt (Nat.sub_pos_of_lt within)
  rw [more, Nat.zero_add]
  have below := rank_lt left rest
  simp only [rank]
  omega

/-! ### Profiles -/

/-- The profile from a place of the queue on, given where the coming levels start. -/
def profileFrom : List Nat → Nat → Nat → List Bool
  | [], place, length => List.replicate (length - place) true
  | start :: rest, place, length =>
    List.replicate (start - place) true ++ false :: profileFrom rest start length

theorem profileFrom_append (before : List Nat) (start : Nat) (behind : List Nat)
    (place length : Nat) :
    profileFrom (before ++ start :: behind) place length =
      profileFrom before place start ++ false :: profileFrom behind start length := by
  induction before generalizing place with
  | nil => rfl
  | cons first before ih =>
    rw [List.cons_append, profileFrom, profileFrom, ih, List.append_assoc, List.cons_append]

/-- More literals at the last level. -/
theorem profileFrom_grow {starts : List Nat} {place length : Nat} (more : Nat)
    (begun : place ≤ length) (within : ∀ start ∈ starts, start ≤ length) :
    profileFrom starts place (length + more) =
      profileFrom starts place length ++ List.replicate more true := by
  induction starts generalizing place with
  | nil =>
    rw [profileFrom, profileFrom, ← List.replicate_add]
    congr 1
    omega
  | cons start rest ih =>
    have begun' := within start List.mem_cons_self
    rw [profileFrom, profileFrom, ih begun' fun other inside =>
      within other (List.mem_cons_of_mem _ inside), List.append_assoc, List.cons_append]

theorem length_profileFrom {starts : List Nat} {place length : Nat}
    (ascending : (place :: starts).Pairwise (· ≤ ·))
    (within : ∀ start ∈ place :: starts, start ≤ length) :
    (profileFrom starts place length).length + place = length + starts.length := by
  induction starts generalizing place with
  | nil =>
    have begun := within place List.mem_cons_self
    rw [profileFrom, List.length_replicate, List.length_nil]
    omega
  | cons start rest ih =>
    have below := List.rel_of_pairwise_cons ascending List.mem_cons_self
    have counted := ih ascending.of_cons fun other inside =>
      within other (List.mem_cons_of_mem _ inside)
    rw [profileFrom, List.length_append, List.length_replicate, List.length_cons, List.length_cons]
    omega

namespace Trail

variable {trail : Trail}

/-- A `false` for each level and a `true` for each decided literal. -/
def profile (trail : Trail) : List Bool :=
  profileFrom trail.levelStarts.toList 0 trail.length

theorem Coherent.starts_le (coherent : trail.Coherent) :
    ∀ start ∈ trail.levelStarts.toList, start ≤ trail.length := by
  intro start inside
  obtain ⟨below, opened⟩ := List.mem_iff_getElem?.mp inside
  rw [Array.getElem?_toList] at opened
  exact coherent.bounded below start opened

theorem Coherent.length_profile (coherent : trail.Coherent) :
    trail.profile.length = trail.length + trail.level := by
  have ascending : (0 :: trail.levelStarts.toList).Pairwise (· ≤ ·) := by
    refine List.pairwise_cons.mpr ⟨fun _ _ => Nat.zero_le _, ?_⟩
    refine List.pairwise_iff_getElem.mpr fun first second inside inside' before => ?_
    refine coherent.ascending first second _ _ (Nat.le_of_lt before) ?_ ?_
    · rw [← Array.getElem?_toList]
      exact List.getElem?_eq_getElem inside
    · rw [← Array.getElem?_toList]
      exact List.getElem?_eq_getElem inside'
  have counted := length_profileFrom ascending
    (List.forall_mem_cons.mpr ⟨Nat.zero_le trail.length, coherent.starts_le⟩)
  rw [Array.length_toList] at counted
  exact counted

/-! ### Spaced levels -/

/-- Only assumptions have empty levels, so there are not many more levels than decided literals. -/
structure Spaced (assumed : Nat) (trail : Trail) : Prop where
  starts : ∀ below start : Nat, trail.levelStarts[below]? = some start → below ≤ assumed + start
  level : trail.level ≤ assumed + trail.length

/-- At level zero there is nothing to space. -/
theorem spaced_of_closed (assumed : Nat) (closed : trail.level = 0) : trail.Spaced assumed where
  starts below start opened := by
    have inside : below < trail.level := (Array.getElem?_eq_some_iff.mp opened).1
    omega
  level := by omega

/-- A profile is no longer than twice the variables with room and the assumptions. -/
theorem Coherent.length_profile_le (coherent : trail.Coherent) {assumed : Nat}
    (spaced : trail.Spaced assumed) : trail.profile.length ≤ 2 * trail.room + assumed := by
  have roomy := coherent.length_le_room
  have levels := spaced.level
  rw [coherent.length_profile]
  omega

variable {assumed : Nat}

/-- Levels stay spaced when literals are added. -/
theorem Spaced.grow {new : Trail} (spaced : trail.Spaced assumed)
    (starts : new.levelStarts = trail.levelStarts) (longer : trail.length ≤ new.length) :
    new.Spaced assumed where
  starts below start opened := spaced.starts below start (by rw [← starts]; exact opened)
  level := by
    have levels := spaced.level
    have same : new.level = trail.level := congrArg Array.size starts
    omega

theorem Spaced.openLevel (spaced : trail.Spaced assumed) :
    ∀ below start : Nat, trail.openLevel.levelStarts[below]? = some start →
      below ≤ assumed + start := by
  intro below start opened
  rw [getElem?_levelStarts_openLevel] at opened
  split at opened
  · next last =>
    cases opened
    rw [last]
    exact spaced.level
  · exact spaced.starts below start opened

theorem exists_start {level : Nat} (below : level < trail.level) :
    ∃ start, trail.levelStarts[level]? = some start :=
  ⟨_, Array.getElem?_eq_getElem below⟩

/-- The length of the queue is what it was when the level was opened. -/
theorem Coherent.length_revertTo_of_open (coherent : trail.Coherent) {level start : Nat}
    (opened : trail.levelStarts[level]? = some start) : (trail.revertTo level).length = start := by
  rw [coherent.length_revertTo, levelStart_succ, opened, Option.getD_some]

theorem length_push {literal : Literal} (undecided : trail.record? literal.atom = none)
    (reason : Option ConstraintId) : (trail.push literal reason).length = trail.length + 1 := by
  show (trail.push literal reason).queue.size = _
  rw [queue_push reason undecided, Array.size_push]
  rfl

/-- **A round that goes on keeps the levels spaced.** -/
theorem Moves.spaced {old new : Trail} (coherent : old.Coherent) (spaced : old.Spaced assumed)
    (moves : Solver.Moves assumed old new) : new.Spaced assumed := by
  rcases moves with ⟨target, literal, id, below, undecided, rfl⟩ | ⟨early, rfl⟩ |
    ⟨literal, undecided, rfl⟩
  · obtain ⟨start, opened⟩ := exists_start below
    have started := spaced.starts target start opened
    have level : (old.revertTo target).level = target := by
      rw [level_revertTo]
      omega
    refine ⟨fun place begun found => ?_, ?_⟩
    · rw [levelStarts_push, getElem?_levelStarts_revertTo] at found
      split at found
      · exact spaced.starts place begun found
      · cases found
    · have same : ((old.revertTo target).push literal (some id)).level = target :=
        (congrArg Array.size (levelStarts_push _ _ _)).trans level
      rw [same, length_push undecided, coherent.length_revertTo_of_open opened]
      omega
  · refine ⟨spaced.openLevel, ?_⟩
    rw [level_openLevel]
    have longer : assumed ≤ assumed + old.openLevel.length := Nat.le_add_right _ _
    omega
  · have levels := spaced.level
    refine ⟨fun place start found => ?_, ?_⟩
    · rw [levelStarts_push] at found
      exact spaced.openLevel place start found
    · have same : (old.openLevel.push literal none).level = old.level + 1 :=
        (congrArg Array.size (levelStarts_push _ _ _)).trans (level_openLevel old)
      have undecided' : old.openLevel.record? literal.atom = none := undecided
      rw [same, length_push undecided']
      show old.level + 1 ≤ assumed + (old.length + 1)
      omega

/-! ### Greater profiles -/

/-- Propagation adds literals at the present level. -/
theorem Coherent.profile_grow {new : Trail} (coherent : trail.Coherent)
    (starts : new.levelStarts = trail.levelStarts) (longer : trail.length ≤ new.length) :
    new.profile = trail.profile ++ List.replicate (new.length - trail.length) true := by
  unfold profile
  rw [starts, ← profileFrom_grow _ (Nat.zero_le _) coherent.starts_le,
    Nat.add_sub_cancel' longer]

theorem Coherent.profile_push (coherent : trail.Coherent) {literal : Literal}
    (undecided : trail.record? literal.atom = none) (reason : Option ConstraintId) :
    (trail.push literal reason).profile = trail.profile ++ [true] := by
  have length := length_push undecided reason
  rw [coherent.profile_grow (levelStarts_push _ _ _) (by omega), length, Nat.add_sub_cancel_left]
  rfl

theorem profile_openLevel (trail : Trail) : trail.openLevel.profile = trail.profile ++ [false] := by
  unfold profile openLevel
  rw [Array.toList_push, profileFrom_append]
  show _ ++ false :: List.replicate (trail.length - trail.length) true = _
  rw [Nat.sub_self]
  rfl

/-- The profile at the opening of a level is followed by a `false`. -/
theorem Coherent.profile_revertTo (coherent : trail.Coherent) {target : Nat}
    (below : target < trail.level) :
    ∃ rest, trail.profile = (trail.revertTo target).profile ++ false :: rest := by
  obtain ⟨start, opened⟩ := exists_start below
  have starts : (trail.revertTo target).levelStarts.toList =
      trail.levelStarts.toList.take target := by
    rw [revertTo_of_open opened]
    simp
  have cut : trail.levelStarts.toList = trail.levelStarts.toList.take target ++
      start :: trail.levelStarts.toList.drop (target + 1) := by
    rw [← Array.getElem?_toList] at opened
    obtain ⟨inside, here⟩ := List.getElem?_eq_some_iff.mp opened
    rw [← here, ← List.drop_eq_getElem_cons inside, List.take_append_drop]
  refine ⟨profileFrom (trail.levelStarts.toList.drop (target + 1)) start trail.length, ?_⟩
  unfold profile
  rw [starts, coherent.length_revertTo_of_open opened, ← profileFrom_append, ← cut]

/-- **A round that goes on makes the profile greater.** -/
theorem Moves.rank_lt {old new : Trail} (coherent : old.Coherent) {bound : Nat}
    (moves : Solver.Moves assumed old new) (within : new.profile.length ≤ bound) :
    rank bound old.profile < rank bound new.profile := by
  rcases moves with ⟨target, literal, id, below, undecided, rfl⟩ | ⟨_, rfl⟩ |
    ⟨literal, undecided, rfl⟩
  · obtain ⟨rest, split⟩ := coherent.profile_revertTo below
    rw [(coherent.revertTo target).profile_push undecided, List.length_append] at within
    rw [(coherent.revertTo target).profile_push undecided, split]
    exact rank_replace _ _ within
  · rw [profile_openLevel, List.length_append] at within
    rw [profile_openLevel]
    exact rank_extend _ _ _ within
  · have undecided' : old.openLevel.record? literal.atom = none := undecided
    rw [coherent.openLevel.profile_push undecided', profile_openLevel, List.append_assoc,
      List.length_append] at within
    rw [coherent.openLevel.profile_push undecided', profile_openLevel, List.append_assoc]
    refine rank_extend _ _ _ ?_
    have two : ([false] ++ [true] : List Bool).length = 2 := rfl
    omega

end Trail

end Loadout
