/-
**What rules ask for, where some choices are not registered.**

A rule asks for a number of its handles (`Quota`). The handles that it names are taken on their
roots, each once, and one on a root that is not registered is true just when it is negated
(`trueHandles`). What is asked for is put into a cardinality of those that are registered:

* `card_trueHandles`: the handles that are true are those that are kept and true, and those that
  are fixed;
* `holds_emit`: the cardinality counts every mention of a fixed handle, not each handle once;
* **`quota_exact`**: so where no fixed handle is named twice, it holds just when the true handles
  are as many as asked for, and to remove a choice is to set it to false;
* `not_exact_of_repeated`: where one is, neither is so.
-/

import Mathlib.Data.Finset.Card
import Loadout.Proofs.Engine.Changes

namespace Loadout

/-! ### Numbers of handles -/

/-- How many of some handles a rule asks for. -/
inductive Quota
  /-- One or more. -/
  | someOf
  /-- A number or more. -/
  | atLeast (least : Nat)
  /-- A number or fewer. -/
  | atMost (most : Nat)
  /-- Just a number. -/
  | exactly (number : Nat)
  /-- From one number to another. -/
  | between (least most : Nat)
deriving DecidableEq, Repr

namespace Quota

/-- The smallest number asked for. -/
def least : Quota → Nat
  | .someOf => 1
  | .atLeast least => least
  | .atMost _ => 0
  | .exactly number => number
  | .between least _ => least

/-- The greatest number asked for, if there is one. -/
def most? : Quota → Option Nat
  | .someOf => none
  | .atLeast _ => none
  | .atMost most => some most
  | .exactly number => some number
  | .between _ most => some most

/-- The greatest number asked for of so many handles. -/
def most (total : Nat) : Quota → Nat
  | .someOf => total
  | .atLeast _ => total
  | .atMost most => most
  | .exactly number => number
  | .between _ most => min most total

/-- Whether a number is one of those asked for. -/
def Admits (quota : Quota) (number : Nat) : Prop :=
  quota.least ≤ number ∧ ∀ most, quota.most? = some most → number ≤ most

/-- Whether it may be asked of so many handles. -/
def Accepts (quota : Quota) (total : Nat) : Prop :=
  match quota with
  | .atMost most => most ≤ total
  | .between least most => least ≤ most ∧ least ≤ total
  | quota => quota.least ≤ total

/-- Of no more handles than there are, those are asked for that are in the range. -/
theorem admits_iff {quota : Quota} {number total : Nat} (within : number ≤ total) :
    quota.Admits number ↔ quota.least ≤ number ∧ number ≤ quota.most total := by
  unfold Admits
  refine and_congr_right fun _ => ?_
  cases quota with
  | someOf => exact iff_of_true nofun within
  | atLeast least => exact iff_of_true nofun within
  | atMost most => simp [most?, Quota.most]
  | exactly number => simp [most?, Quota.most]
  | between least most => simp [most?, Quota.most, within]

variable (table : ChoiceTable) (rule : RuleId) (handles : List Handle)

/-- The cardinality by which a rule asks for it. -/
def emit : Quota → Except DefinitionError Cardinality
  | .someOf => Cardinality.atLeastOneOf table rule handles
  | .atLeast least => Cardinality.atLeast table rule least handles
  | .atMost most => Cardinality.atMost table rule most handles
  | .exactly number => Cardinality.exactly table rule number handles
  | .between least most => Cardinality.between table rule least most handles

variable {table rule handles} {quota : Quota} {cardinality : Cardinality}

theorem checkCount_bind {count : Nat} {made : Cardinality} :
    (do Cardinality.checkCount rule count handles; return made) = .ok cardinality ↔
      count ≤ handles.length ∧ cardinality = made := by
  unfold Cardinality.checkCount
  by_cases many : handles.length < count
  · rw [if_pos many]
    exact iff_of_false nofun fun both => Nat.not_le_of_lt many both.1
  · rw [if_neg many]
    show Except.ok made = Except.ok cardinality ↔ _
    rw [Except.ok.injEq, eq_comm, and_iff_right (Nat.le_of_not_lt many)]

/-- **What may be asked is folded.** -/
theorem emit_ok_iff : quota.emit table rule handles = .ok cardinality ↔
    quota.Accepts handles.length ∧ cardinality =
      Cardinality.fold table handles quota.least (quota.most handles.length) := by
  cases quota with
  | someOf =>
    show Cardinality.atLeastOneOf table rule handles = .ok cardinality ↔
      1 ≤ handles.length ∧ cardinality = Cardinality.fold table handles 1 handles.length
    unfold Cardinality.atLeastOneOf
    cases handles with
    | nil => exact iff_of_false nofun fun both => Nat.not_succ_le_zero 0 both.1
    | cons first rest =>
      have enough : 1 ≤ (first :: rest).length := Nat.succ_le_of_lt (Nat.zero_lt_succ _)
      rw [List.isEmpty_cons, if_neg Bool.false_ne_true, Except.ok.injEq, eq_comm,
        and_iff_right enough]
  | atLeast least => exact checkCount_bind
  | atMost most => exact checkCount_bind
  | exactly number => exact checkCount_bind
  | between least most =>
    show Cardinality.between table rule least most handles = .ok cardinality ↔
      (least ≤ most ∧ least ≤ handles.length) ∧
        cardinality = Cardinality.fold table handles least (min most handles.length)
    unfold Cardinality.between
    by_cases inverted : most < least
    · rw [if_pos inverted]
      exact iff_of_false nofun fun both => Nat.not_le_of_lt inverted both.1.1
    · rw [if_neg inverted, and_assoc, and_iff_right (Nat.le_of_not_lt inverted)]
      exact checkCount_bind

end Quota

/-! ### True handles -/

/-- The handles on the roots of some handles that are true, each once; a root that is not registered
is false. -/
def trueHandles (table : ChoiceTable) (value : ChoiceId → Bool) (handles : List Handle) :
    Finset Handle :=
  (handles.map table.resolve).toFinset.filter fun handle =>
    (table.contains handle.choice && value handle.choice) != handle.negated

/-- The handles on roots that are true because these are not registered, as often as they are
named. -/
def fixedHandles (table : ChoiceTable) (handles : List Handle) : List Handle :=
  (handles.filter (Cardinality.isFixed table)).map table.resolve

namespace Cardinality

variable {table : ChoiceTable} {handles : List Handle} {value : ChoiceId → Bool}

theorem mem_fixedHandles {handle : Handle} : handle ∈ fixedHandles table handles ↔
    handle ∈ handles.map table.resolve ∧ table.contains handle.choice = false ∧
      handle.negated = true := by
  unfold fixedHandles
  simp only [List.mem_map, List.mem_filter]
  constructor
  · rintro ⟨given, ⟨inside, fixed⟩, rfl⟩
    obtain ⟨unregistered, negated⟩ := Bool.and_eq_true_iff.mp fixed
    rw [Bool.not_eq_true'] at unregistered
    exact ⟨⟨given, inside, rfl⟩, unregistered, negated⟩
  · rintro ⟨⟨given, inside, rfl⟩, unregistered, negated⟩
    have fixed : isFixed table given = true :=
      Bool.and_eq_true_iff.mpr ⟨congrArg (!·) unregistered, negated⟩
    exact ⟨given, ⟨inside, fixed⟩, rfl⟩

/-- The handles that are true are those that are kept and true, and those that are fixed. -/
theorem trueHandles_eq (table : ChoiceTable) (value : ChoiceId → Bool) (handles : List Handle) :
    trueHandles table value handles =
      ((sort table handles).1.filter (Handle.holds value)).toFinset ∪
        (fixedHandles table handles).toFinset := by
  have sorted := sort_spec table handles
  ext handle
  unfold trueHandles
  rw [Finset.mem_union, Finset.mem_filter, List.mem_toFinset, List.mem_toFinset,
    List.mem_toFinset, List.mem_filter, sorted.kept, mem_fixedHandles, List.mem_map]
  cases registered : table.contains handle.choice with
  | true => simp [Handle.holds, and_comm]
  | false => simp

/-- **The true handles are counted** by those that are kept and true, and those that are fixed. -/
theorem card_trueHandles (table : ChoiceTable) (value : ChoiceId → Bool)
    (handles : List Handle) : (trueHandles table value handles).card =
      ((sort table handles).1.filter (Handle.holds value)).length +
        (fixedHandles table handles).toFinset.card := by
  have sorted := sort_spec table handles
  have apart : Disjoint ((sort table handles).1.filter (Handle.holds value)).toFinset
      (fixedHandles table handles).toFinset := by
    refine Finset.disjoint_left.mpr fun handle kept fixed => ?_
    have registered := ((sorted.kept handle).mp (List.mem_of_mem_filter
      (List.mem_toFinset.mp kept))).1
    have unregistered := (mem_fixedHandles.mp (List.mem_toFinset.mp fixed)).2.1
    exact absurd (registered.symm.trans unregistered) Bool.true_eq_false.mp
  rw [trueHandles_eq, Finset.card_union_of_disjoint apart,
    List.toFinset_card_of_nodup (sorted.distinct.filter _)]

/-- How often fixed handles are named again. -/
def repeats (table : ChoiceTable) (handles : List Handle) : Nat :=
  (fixedHandles table handles).length - (fixedHandles table handles).toFinset.card

/-- What is kept and true, and what is fixed, are the true handles and those that are named
again. -/
theorem counted_eq (table : ChoiceTable) (value : ChoiceId → Bool) (handles : List Handle) :
    ((sort table handles).1.filter (Handle.holds value)).length + (sort table handles).2 =
      (trueHandles table value handles).card + repeats table handles := by
  have fewer := List.toFinset_card_le (fixedHandles table handles)
  have fixed : (sort table handles).2 = (fixedHandles table handles).length := by
    rw [(sort_spec table handles).fixed]
    unfold fixedHandles
    rw [List.length_map]
  unfold repeats
  rw [card_trueHandles]
  omega

/-- What is folded holds when what is counted is in the range. -/
theorem holds_fold {least most : Nat} :
    (fold table handles least most).holds value = true ↔
      least ≤ (trueHandles table value handles).card + repeats table handles ∧
        (trueHandles table value handles).card + repeats table handles ≤ most := by
  rw [← counted_eq]
  unfold fold
  generalize sort table handles = state
  obtain ⟨kept, fixed⟩ := state
  dsimp only
  split
  · exact iff_of_false Bool.false_ne_true (by omega)
  · unfold holds
    dsimp only
    rw [Bool.and_eq_true, decide_eq_true_iff, decide_eq_true_iff]
    omega

theorem counted_le (table : ChoiceTable) (value : ChoiceId → Bool) (handles : List Handle) :
    (trueHandles table value handles).card + repeats table handles ≤ handles.length := by
  have within := List.length_filter_le (Handle.holds value) (sort table handles).1
  have fewer := (sort_spec table handles).fewer
  rw [← counted_eq]
  omega

/-- **A cardinality counts every mention of a fixed handle.** -/
theorem holds_emit {rule : RuleId} {quota : Quota} {cardinality : Cardinality}
    (accepted : quota.emit table rule handles = .ok cardinality) :
    cardinality.holds value = true ↔
      quota.Admits ((trueHandles table value handles).card + repeats table handles) := by
  obtain ⟨_, rfl⟩ := Quota.emit_ok_iff.mp accepted
  have within := counted_le table value handles
  rw [holds_fold, Quota.admits_iff within]

/-! ### Removed choices -/

variable {earlier : ChoiceTable} {id : ChoiceId}

theorem resolve_remove (removed : earlier.remove id = some table) (handle : Handle) :
    table.resolve handle = earlier.resolve handle := by
  unfold ChoiceTable.resolve ChoiceTable.root
  rw [ChoiceTable.size_change removed,
    ChoiceTable.follow_congr fun _ => ChoiceTable.target?_change removed (fun _ => rfl) _]

/-- **To remove a choice is to set it to false.** -/
theorem trueHandles_remove (removed : earlier.remove id = some table) :
    trueHandles table value handles =
      trueHandles earlier (Function.update value id false) handles := by
  unfold trueHandles
  rw [funext (resolve_remove removed)]
  refine Finset.filter_congr fun handle _ => ?_
  rw [ChoiceTable.contains_remove removed]
  by_cases same : handle.choice = id
  · simp [same]
  · have differs : (handle.choice != id) = true := bne_iff_ne.mpr same
    rw [differs, Bool.and_true, Function.update_of_ne same]

/-- What was fixed before is fixed still, where it is named. -/
theorem fixedHandles_remove (removed : earlier.remove id = some table) :
    (fixedHandles earlier handles).Sublist (fixedHandles table handles) := by
  unfold fixedHandles
  rw [funext (resolve_remove removed)]
  refine (List.monotone_filter_right handles fun handle fixed => ?_).map _
  obtain ⟨unregistered, negated⟩ := Bool.and_eq_true_iff.mp fixed
  have same : table.root handle.choice = earlier.root handle.choice :=
    congrArg Handle.choice (resolve_remove removed handle)
  unfold isFixed
  rw [Bool.not_eq_true'] at unregistered
  rw [same, ChoiceTable.contains_remove removed, negated, unregistered]
  rfl

/-! ### Exact quotas -/

/-- Every fixed handle is named once, unless just one handle or more is asked for. -/
def Careful (table : ChoiceTable) (handles : List Handle) (quota : Quota) : Prop :=
  quota = .someOf ∨ (fixedHandles table handles).Nodup

/-- A careful rule gets what it asks for. -/
theorem Careful.holds_iff {rule : RuleId} {quota : Quota} {cardinality : Cardinality}
    (careful : Careful table handles quota)
    (accepted : quota.emit table rule handles = .ok cardinality) :
    cardinality.holds value = true ↔ quota.Admits (trueHandles table value handles).card := by
  rw [holds_emit accepted]
  rcases careful with rfl | distinct
  · -- a handle that is named again is true already
    have again : 0 < repeats table handles → 0 < (trueHandles table value handles).card := by
      intro more
      have named : 0 < (fixedHandles table handles).length :=
        Nat.lt_of_lt_of_le more (Nat.sub_le _ _)
      obtain ⟨handle, inside⟩ := List.exists_mem_of_length_pos named
      rw [Finset.card_pos]
      refine ⟨handle, ?_⟩
      rw [trueHandles_eq]
      exact Finset.mem_union_right _ (List.mem_toFinset.mpr inside)
    unfold Quota.Admits Quota.least Quota.most?
    simp only [reduceCtorEq, false_implies, implies_true, and_true]
    omega
  · have once : repeats table handles = 0 := by
      unfold repeats
      rw [List.toFinset_card_of_nodup distinct, Nat.sub_self]
    rw [once, Nat.add_zero]

/-- **What quotas ask for.** A rule gets a cardinality that holds just when as many of its handles
are true as it asks for, where each further mention of a handle that is true only because its root
is not registered counts once more. So a rule without such mentions gets just what it asks for; and
had the last removed choice not been removed but set to false, its cardinality would hold alike. To
ask for one handle or more, nothing needs to be avoided. -/
theorem quota_exact {rule : RuleId} {quota : Quota} {cardinality : Cardinality}
    (accepted : quota.emit table rule handles = .ok cardinality) :
    (∀ value, cardinality.holds value = true ↔
      quota.Admits ((trueHandles table value handles).card + repeats table handles)) ∧
    (Careful table handles quota →
      (∀ value, cardinality.holds value = true ↔
        quota.Admits (trueHandles table value handles).card) ∧
      ∀ earlier id, earlier.remove id = some table →
        ∃ before, quota.emit earlier rule handles = .ok before ∧
          ∀ value, cardinality.holds value = before.holds (Function.update value id false)) := by
  refine ⟨fun value => holds_emit accepted, fun careful => ⟨fun value => careful.holds_iff accepted,
    fun earlier id removed => ?_⟩⟩
  have careful' : Careful earlier handles quota :=
    careful.imp_right fun distinct => distinct.sublist (fixedHandles_remove removed)
  have accepts := (Quota.emit_ok_iff.mp accepted).1
  have accepted' : quota.emit earlier rule handles = .ok
      (fold earlier handles quota.least (quota.most handles.length)) :=
    Quota.emit_ok_iff.mpr ⟨accepts, rfl⟩
  refine ⟨_, accepted', fun value => ?_⟩
  rw [Bool.eq_iff_iff, careful.holds_iff accepted, careful'.holds_iff accepted',
    trueHandles_remove removed]

/-- A mod, a further id that it provides, and a branch that was not removed yet, or that was. -/
def pruned (registered : Bool) : ChoiceTable :=
  ⟨#[⟨.candidate "a" "a" ⟨"1", [1], []⟩ false, 0, true⟩,
    ⟨.alias 0 "x" ⟨"1", [1], []⟩, 0, true⟩, ⟨.branch "gone", 0, registered⟩]⟩

/-- The further id is the mod, and the branch being out is one of two. -/
theorem quota_exact_of_pruned :
    (pruned true).remove 2 = some (pruned false) ∧
    Quota.emit (pruned false) 0 [⟨1, false⟩, ⟨2, true⟩, ⟨0, false⟩] (.exactly 2) =
      .ok ⟨[⟨0, false⟩], 1, 1⟩ ∧
    (∀ value, holds value ⟨[⟨0, false⟩], 1, 1⟩ = true ↔
      (Quota.exactly 2).Admits
        (trueHandles (pruned false) value [⟨1, false⟩, ⟨2, true⟩, ⟨0, false⟩]).card) ∧
    ∃ before, Quota.emit (pruned true) 0 [⟨1, false⟩, ⟨2, true⟩, ⟨0, false⟩] (.exactly 2) =
      .ok before ∧
      ∀ value, holds value ⟨[⟨0, false⟩], 1, 1⟩ = before.holds (Function.update value 2 false) := by
  have removed : (pruned true).remove 2 = some (pruned false) := by decide
  have accepted : Quota.emit (pruned false) 0 [⟨1, false⟩, ⟨2, true⟩, ⟨0, false⟩] (.exactly 2) =
      .ok ⟨[⟨0, false⟩], 1, 1⟩ := by decide
  have careful : Careful (pruned false) [⟨1, false⟩, ⟨2, true⟩, ⟨0, false⟩] (.exactly 2) :=
    .inr (by decide)
  obtain ⟨exact, before⟩ := (quota_exact accepted).2 careful
  exact ⟨removed, accepted, exact, before (pruned true) 2 removed⟩

/-- A branch that was not removed yet, or that was. -/
def lone (registered : Bool) : ChoiceTable :=
  ⟨#[⟨.branch "gone", 0, registered⟩]⟩

/-- **Repeats break it.** Of the two mentions of a removed branch being out, just one handle is
true, as is asked for; but both are counted, so that nothing satisfies the rule, which holds before
the removal, when the branch is out. -/
theorem not_exact_of_repeated :
    (lone true).remove 0 = some (lone false) ∧
    Quota.emit (lone false) 0 [⟨0, true⟩, ⟨0, true⟩] (.exactly 1) = .ok contradiction ∧
    contradiction.holds (fun _ => false) = false ∧
    (Quota.exactly 1).Admits
      (trueHandles (lone false) (fun _ => false) [⟨0, true⟩, ⟨0, true⟩]).card ∧
    Quota.emit (lone true) 0 [⟨0, true⟩, ⟨0, true⟩] (.exactly 1) = .ok ⟨[⟨0, true⟩], 1, 1⟩ ∧
    holds (fun _ => false) ⟨[⟨0, true⟩], 1, 1⟩ = true := by
  refine ⟨by decide, by decide, by decide, ?_, by decide, by decide⟩
  have single : (trueHandles (lone false) (fun _ => false) [⟨0, true⟩, ⟨0, true⟩]).card = 1 := by
    decide
  rw [single]
  exact ⟨Nat.le_refl 1, fun most same => Nat.le_of_eq (Option.some.inj same)⟩

end Cardinality

end Loadout
