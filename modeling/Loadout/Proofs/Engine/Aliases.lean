/-
**An alias stands for its root.**

An entry that is an alias names its target, whether the entry is registered or not, and whether
there is an entry for the target or not (`ChoiceTable.IsAliasOf`). Where no chain of aliases comes
back to where it began (`Loopless`):

* `Loopless.acyclic`: the walk to the root is long enough for every chain;
* `Acyclic.root_eq`: choices that aliases join (`Kin`) have one root;
* `Later.root_eq`, `Later.final`: changes of the table leave a root what it is, unless it was
  missing and is added;
* `Quota.emit_congr`: what a rule asks for depends on the roots of its handles alone;
* `Numbering.literal_root`, `Numbering.signedWeight_eq_listed`: the variables, the objective and the
  list of what is loaded go by the value of the root as well.

**`aliases_transparent`** puts them together: any choice may be replaced by one that aliases join
with it.
-/

import Mathlib.Data.Fintype.Pigeonhole
import Mathlib.Logic.Relation
import Loadout.Proofs.Engine.Quotas

namespace Loadout

namespace ChoiceTable

variable {table later next : ChoiceTable} {id other : ChoiceId}

/-! ### Chains of aliases -/

/-- The first choice is an alias of the second. -/
def IsAliasOf (table : ChoiceTable) (id target : ChoiceId) : Prop :=
  table.target? id = some target

/-- **No chain of aliases comes back to where it began.** -/
def Loopless (table : ChoiceTable) : Prop :=
  ∀ id, ¬Relation.TransGen table.IsAliasOf id id

/-- Two choices are joined by aliases. -/
def Kin (table : ChoiceTable) : ChoiceId → ChoiceId → Prop :=
  Relation.EqvGen table.IsAliasOf

/-- Where every alias ranks above its target, no chain comes back. -/
theorem loopless_of_rank (rank : ChoiceId → Nat)
    (falls : ∀ id target, table.target? id = some target → rank target < rank id) :
    table.Loopless := by
  have lower : ∀ {id other}, Relation.TransGen table.IsAliasOf id other → rank other < rank id := by
    intro id other chain
    induction chain with
    | single found => exact falls _ _ found
    | tail _ found ih => exact (falls _ _ found).trans ih
  exact fun id loop => Nat.lt_irrefl _ (lower loop)

theorem follow_one {target : ChoiceId} (found : table.target? id = some target) :
    table.follow 1 id = target := by
  simp only [follow, found]

/-- A walk goes along a chain of aliases. -/
theorem chain_follow (steps : Nat) (id : ChoiceId) :
    Relation.ReflTransGen table.IsAliasOf id (table.follow steps id) := by
  induction steps with
  | zero => exact .refl
  | succ steps ih =>
    rw [follow_add]
    cases found : table.target? (table.follow steps id) with
    | none =>
      rw [follow_of_final found]
      exact ih
    | some target =>
      rw [follow_one found]
      exact ih.tail found

/-- A walk that has not ended makes its steps. -/
theorem chain_between {first second : Nat} (before : first < second)
    (goes : ∀ steps, steps < second → table.target? (table.follow steps id) ≠ none) :
    Relation.TransGen table.IsAliasOf (table.follow first id) (table.follow second id) := by
  obtain ⟨target, found⟩ := Option.ne_none_iff_exists'.mp (goes first before)
  have onward : table.follow second id = table.follow (second - (first + 1)) target := by
    rw [← follow_one found, ← follow_add, ← follow_add]
    congr 1
    omega
  rw [onward]
  exact .head' found (chain_follow _ target)

/-- **Without loops every chain ends, and within the size of the table.** A longer walk would be at
aliases only, of which there are no more than entries, so it would come by one of them twice. -/
theorem Loopless.acyclic (loopless : table.Loopless) : table.Acyclic := by
  intro id
  by_contra endless
  have goes : ∀ steps, steps ≤ table.entries.size →
      table.target? (table.follow steps id) ≠ none := by
    intro steps within final
    refine endless ?_
    unfold root
    rw [← Nat.add_sub_cancel' within, follow_add, follow_of_final final]
    exact final
  have inside : ∀ steps : Fin (table.entries.size + 1),
      table.follow steps id < table.entries.size := fun steps => by
    obtain ⟨target, found⟩ :=
      Option.ne_none_iff_exists'.mp (goes steps (Nat.le_of_lt_succ steps.isLt))
    exact lt_of_target? found
  have twice : ∃ first second : Fin (table.entries.size + 1), first < second ∧
      table.follow first id = table.follow second id := by
    obtain ⟨first, second, different, same⟩ := Fintype.exists_ne_map_eq_of_card_lt
      (fun steps : Fin (table.entries.size + 1) =>
        (⟨table.follow steps id, inside steps⟩ : Fin table.entries.size)) (by simp)
    have equal : table.follow first id = table.follow second id := congrArg Fin.val same
    rcases lt_or_gt_of_ne different with before | behind
    · exact ⟨first, second, before, equal⟩
    · exact ⟨second, first, behind, equal.symm⟩
  obtain ⟨first, second, before, same⟩ := twice
  have loop : Relation.TransGen table.IsAliasOf (table.follow first id) (table.follow second id) :=
    chain_between before fun steps early => goes steps (by omega)
  rw [same] at loop
  exact loopless _ loop

/-- An alias has the root of its target. -/
theorem Acyclic.root_target (acyclic : table.Acyclic) {target : ChoiceId}
    (found : table.target? id = some target) : table.root id = table.root target := by
  have further := follow_of_final (acyclic id) 1
  have shifted : table.follow 1 (table.root id) = table.follow table.entries.size target := by
    unfold root
    rw [← follow_add, Nat.add_comm, follow_add, follow_one found]
  exact further.symm.trans shifted

/-- **Choices that aliases join have one root.** -/
theorem Acyclic.root_eq (acyclic : table.Acyclic) (kin : table.Kin id other) :
    table.root id = table.root other := by
  induction kin with
  | rel id target found => exact acyclic.root_target found
  | refl id => rfl
  | symm id other _ ih => exact ih.symm
  | trans id between other _ _ first second => exact first.trans second

/-- A walk that has ended is at the root. -/
theorem Acyclic.follow_eq_root (acyclic : table.Acyclic) {steps : Nat}
    (ended : table.target? (table.follow steps id) = none) :
    table.follow steps id = table.root id := by
  calc table.follow steps id
      = table.follow table.entries.size (table.follow steps id) := (follow_of_final ended _).symm
    _ = table.follow steps (table.root id) := by
      rw [← follow_add, Nat.add_comm, follow_add, root]
    _ = table.root id := follow_of_final (acyclic id) _

/-! ### Later tables -/

/-- The tables that a table may become: choices are added under the next numbers, with any targets,
and registered ones are removed or get other weights. -/
inductive Later (table : ChoiceTable) : ChoiceTable → Prop
  | same : Later table table
  | add {later : ChoiceTable} (choice : Choice) (weight : Int) : Later table later →
      Later table (later.add choice weight).2
  | remove {later next : ChoiceTable} {id : ChoiceId} : Later table later →
      later.remove id = some next → Later table next
  | setWeight {later next : ChoiceTable} {id : ChoiceId} {weight : Int} : Later table later →
      later.setWeight id weight = some next → Later table next

theorem Later.size_le (later' : table.Later later) : table.entries.size ≤ later.entries.size := by
  induction later' with
  | same => exact Nat.le_refl _
  | add choice weight _ ih =>
    refine ih.trans ?_
    show _ ≤ (Array.push _ _).size
    rw [Array.size_push]
    exact Nat.le_succ _
  | remove _ removed ih =>
    rw [size_change removed]
    exact ih
  | setWeight _ changed ih =>
    rw [size_change changed]
    exact ih

/-- What is there keeps its target. -/
theorem Later.target?_eq (later' : table.Later later) (inside : id < table.entries.size) :
    later.target? id = table.target? id := by
  induction later' with
  | same => rfl
  | add choice weight grown ih =>
    rw [← ih]
    unfold target?
    rw [getElem?_add, if_neg (Nat.ne_of_lt (inside.trans_le grown.size_le))]
  | remove _ removed ih =>
    rw [← ih]
    exact target?_change removed (fun _ => rfl) id
  | setWeight _ changed ih =>
    rw [← ih]
    exact target?_change changed (fun _ => rfl) id

/-- **A root stays what it is** as long as it is no alias. -/
theorem Later.root_eq (later' : table.Later later) (acyclic : table.Acyclic)
    (final : later.target? (table.root id) = none) : later.root id = table.root id := by
  refine root_congr (acyclic id) later'.size_le fun steps => ?_
  cases found : table.target? (table.follow steps id) with
  | some target => rw [later'.target?_eq (lt_of_target? found), found]
  | none => rw [acyclic.follow_eq_root found, final]

/-- A root that was missing and is missing still is no alias, and neither is one that was there. -/
theorem Later.final (later' : table.Later later) (acyclic : table.Acyclic)
    (known : table.root id < later.entries.size → table.root id < table.entries.size) :
    later.target? (table.root id) = none := by
  by_cases there : table.root id < table.entries.size
  · rw [later'.target?_eq there, acyclic id]
  · rw [Option.eq_none_iff_forall_not_mem]
    exact fun target found => there (known (lt_of_target? found))

end ChoiceTable

/-! ### What rules ask for -/

namespace Cardinality

variable {table : ChoiceTable}

/-- What becomes of a handle when it is sorted in depends on its root alone. -/
theorem sortStep_congr {one other : Handle} (same : table.resolve one = table.resolve other)
    (state : List Handle × Nat) : sortStep table state one = sortStep table state other := by
  have root : table.root one.choice = table.root other.choice := congrArg Handle.choice same
  have negated : one.negated = other.negated := by
    show (table.resolve one).negated = (table.resolve other).negated
    rw [same]
  unfold sortStep
  rw [root, negated, same]

/-- Handles are folded by their roots. -/
theorem fold_of_resolve {handles others : List Handle}
    (same : List.Forall₂ (fun one other => table.resolve one = table.resolve other) handles others)
    (least most : Nat) : fold table handles least most = fold table others least most := by
  have sorted : ∀ state, handles.foldl (sortStep table) state =
      others.foldl (sortStep table) state := by
    induction same with
    | nil => exact fun _ => rfl
    | cons here _ ih =>
      intro state
      rw [List.foldl_cons, List.foldl_cons, sortStep_congr here, ih]
  unfold fold
  rw [sort_eq, sort_eq, sorted]

end Cardinality

/-- **What a rule asks for depends on the roots of its handles alone**, and so does whether it may
ask for it. -/
theorem Quota.emit_congr {table : ChoiceTable} {rule : RuleId} {handles others : List Handle}
    (same : List.Forall₂ (fun one other => table.resolve one = table.resolve other) handles others)
    (quota : Quota) : quota.emit table rule handles = quota.emit table rule others := by
  have length := same.length_eq
  have folded := Cardinality.fold_of_resolve same
  have counted : ∀ count, Cardinality.checkCount rule count handles =
      Cardinality.checkCount rule count others := by
    intro count
    unfold Cardinality.checkCount
    rw [length]
  cases quota with
  | someOf =>
    show Cardinality.atLeastOneOf table rule handles = Cardinality.atLeastOneOf table rule others
    unfold Cardinality.atLeastOneOf
    have empty : handles.isEmpty = others.isEmpty := by
      rw [Bool.eq_iff_iff, List.isEmpty_iff_length_eq_zero, List.isEmpty_iff_length_eq_zero, length]
    rw [empty, length, folded]
  | atLeast least =>
    show Cardinality.atLeast table rule least handles = Cardinality.atLeast table rule least others
    unfold Cardinality.atLeast
    rw [counted, length, folded]
  | atMost most =>
    show Cardinality.atMost table rule most handles = Cardinality.atMost table rule most others
    unfold Cardinality.atMost
    rw [counted, folded]
  | exactly number =>
    show Cardinality.exactly table rule number handles =
      Cardinality.exactly table rule number others
    unfold Cardinality.exactly
    rw [counted, folded]
  | between least most =>
    show Cardinality.between table rule least most handles =
      Cardinality.between table rule least most others
    unfold Cardinality.between
    rw [counted, length, folded]

/-! ### Variables -/

namespace Numbering

variable {table : ChoiceTable} {model : Array Bool} {id other : ChoiceId}

/-- The value of a choice is that of its root. -/
theorem value_eq_read (numbering : Numbering) (table : ChoiceTable) (model : Array Bool)
    (id : ChoiceId) : numbering.value table model id =
      numbering.read (valuation model) (table.root id) := by
  unfold Numbering.value read
  cases numbering.atom? (table.root id) <;> rfl

/-- Without a registered root a choice is false. -/
theorem value_of_unregistered (unregistered : table.contains (table.root id) = false) :
    (ofTable table).value table model id = false := by
  have rooted := isSome_atom?_iff table (table.root id)
  rw [value_eq_read]
  unfold read
  cases found : (ofTable table).atom? (table.root id) with
  | none => rfl
  | some atom =>
    rw [found] at rooted
    rw [(ChoiceTable.isRoot_iff.mp (rooted.mp rfl)).1] at unregistered
    cases unregistered

/-- **A handle is true with the literal of its root**, where the root is registered. -/
theorem literal_root (acyclic : table.Acyclic) (model : Array Bool) {handle : Handle}
    (registered : table.contains (table.root handle.choice) = true) :
    ∃ literal, (ofTable table).literal (table.resolve handle) = .ok literal ∧
      literal.holds (valuation model) = handle.holds ((ofTable table).value table model) := by
  obtain ⟨literal, found⟩ : ∃ literal, (ofTable table).literal (table.resolve handle) =
      .ok literal := literal_ok_iff.mpr (acyclic.isRoot_root registered)
  refine ⟨literal, found, ?_⟩
  have spec := literal_spec (covers_ofTable table) (matches_read _ (valuation model)) found
  rw [spec.2]
  unfold Handle.holds
  rw [value_eq_read]
  rfl

/-- The objective is the total weight of what is listed as loaded. -/
theorem signedWeight_eq_listed (table : ChoiceTable) (model : Array Bool) :
    signedWeight (valuation model) ((ofTable table).objective table) =
      table.totalWeight (table.ids.filter ((ofTable table).value table model)) := by
  rw [signedWeight_objective (covers_ofTable table), ChoiceTable.totalWeight_filter]
  simp only [value_eq_read]

end Numbering

/-! ### Transparency -/

namespace ChoiceTable

variable {table : ChoiceTable}

/-- Two handles say the same of choices that aliases join. -/
def Twins (table : ChoiceTable) (one other : Handle) : Prop :=
  table.Kin one.choice other.choice ∧ one.negated = other.negated

theorem Acyclic.resolve_eq (acyclic : table.Acyclic) {one other : Handle}
    (twins : table.Twins one other) : table.resolve one = table.resolve other := by
  unfold resolve
  rw [acyclic.root_eq twins.1, twins.2]

/-- **Aliases are transparent** where no chain of them comes back to where it began, whether their
targets are registered, removed, added later or never. The root of a choice is the end of its chain,
so it is no alias; to resolve a handle twice or negated is nothing new, and it comes to the same in
every later table in which the root, if it was missing, is missing still. Handles on choices that
aliases join may be exchanged in all that a rule asks for. And in every model these choices have one
value, which is that of the literal of their root, or false where the root is not registered; so
they are listed alike, and the objective is the total weight of what is listed. -/
theorem aliases_transparent (loopless : table.Loopless) :
    (∀ id, Relation.ReflTransGen table.IsAliasOf id (table.root id) ∧
      table.target? (table.root id) = none) ∧
    (∀ handle, table.resolve (table.resolve handle) = table.resolve handle ∧
      table.resolve handle.negate = (table.resolve handle).negate) ∧
    (∀ later, table.Later later → ∀ handle,
      (table.root handle.choice < later.entries.size →
        table.root handle.choice < table.entries.size) →
      later.resolve handle = table.resolve handle) ∧
    (∀ handles others, List.Forall₂ table.Twins handles others →
      (∀ rule quota, Quota.emit table rule handles quota = Quota.emit table rule others quota) ∧
      handles.map (fun handle => (table.resolve handle).negate) =
        others.map fun handle => (table.resolve handle).negate) ∧
    ∀ model,
      (∀ id other, table.Kin id other → (Numbering.ofTable table).value table model id =
        (Numbering.ofTable table).value table model other) ∧
      (∀ handle, table.contains (table.root handle.choice) = true →
        ∃ literal, (Numbering.ofTable table).literal (table.resolve handle) = .ok literal ∧
          literal.holds (valuation model) =
            handle.holds ((Numbering.ofTable table).value table model)) ∧
      (∀ id, table.contains (table.root id) = false →
        (Numbering.ofTable table).value table model id = false) ∧
      ∀ engine : Engine, engine.choices = table →
        (∀ id other, table.Kin id other → table.contains id = true →
          table.contains other = true →
          (id ∈ engine.loadedIn (Numbering.ofTable table) model ↔
            other ∈ engine.loadedIn (Numbering.ofTable table) model)) ∧
        signedWeight (valuation model) ((Numbering.ofTable table).objective table) =
          table.totalWeight (engine.loadedIn (Numbering.ofTable table) model) := by
  have acyclic := loopless.acyclic
  refine ⟨fun id => ⟨chain_follow _ id, acyclic id⟩, fun handle => ⟨?_, rfl⟩,
    fun later later' handle known => ?_, fun handles others twins => ?_, fun model => ?_⟩
  · unfold resolve
    rw [root_root (acyclic handle.choice)]
  · unfold resolve
    rw [later'.root_eq acyclic (later'.final acyclic known)]
  · have same := twins.imp fun one other twins => acyclic.resolve_eq twins
    refine ⟨fun rule quota => Quota.emit_congr same quota, ?_⟩
    rw [← List.forall₂_eq_eq_eq, List.forall₂_map_left_iff, List.forall₂_map_right_iff]
    exact same.imp fun one other equal => congrArg Handle.negate equal
  · have level : ∀ id other, table.Kin id other → (Numbering.ofTable table).value table model id =
        (Numbering.ofTable table).value table model other := by
      intro id other kin
      unfold Numbering.value
      rw [acyclic.root_eq kin]
    refine ⟨level, fun handle => Numbering.literal_root acyclic model,
      fun id => Numbering.value_of_unregistered, fun engine same => ?_⟩
    subst same
    refine ⟨fun id other kin registered registered' => ?_,
      Numbering.signedWeight_eq_listed engine.choices model⟩
    unfold Engine.loadedIn
    rw [List.mem_filter, List.mem_filter, mem_ids_iff, mem_ids_iff, registered, registered',
      level id other kin]

/-- A provided id whose provider was added after it, a second id that it provides, which was
removed, the provider, and an id whose provider was never added. -/
def detour : ChoiceTable :=
  ⟨#[⟨.alias 2 "x" ⟨"1", [1], []⟩, 3, true⟩, ⟨.alias 0 "y" ⟨"2", [2], []⟩, 5, false⟩,
    ⟨.branch "provider", -4, true⟩, ⟨.alias 7 "z" ⟨"1", [1], []⟩, 1, true⟩]⟩

theorem loopless_detour : detour.Loopless := by
  refine loopless_of_rank (fun id => if id = 1 then 2 else if id = 0 ∨ id = 3 then 1 else 0)
    fun id target found => ?_
  have below : id < 4 := lt_of_target? found
  have falls : ∀ id < 4, (detour.target? id).all (fun target =>
      (if target = 1 then 2 else if target = 0 ∨ target = 3 then 1 else 0) <
        if id = 1 then 2 else if id = 0 ∨ id = 3 then 1 else 0) = true := by decide
  have here := falls id below
  rw [found, Option.all_some, decide_eq_true_iff] at here
  exact here

/-- The removed alias and the provider at the end of its chain may be exchanged, and so may the last
alias and the choice that was never added, whether further choices are added or not. -/
theorem aliases_transparent_of_detour :
    detour.Loopless ∧ detour.Twins ⟨1, false⟩ ⟨2, false⟩ ∧ detour.Twins ⟨3, true⟩ ⟨7, true⟩ ∧
    detour.resolve ⟨1, false⟩ = ⟨2, false⟩ ∧
    (detour.add (.branch "further") 0).2.resolve ⟨1, false⟩ = detour.resolve ⟨1, false⟩ ∧
    Quota.emit detour 0 [⟨1, false⟩, ⟨3, true⟩] (.exactly 2) =
      Quota.emit detour 0 [⟨2, false⟩, ⟨7, true⟩] (.exactly 2) ∧
    (Numbering.ofTable detour).value detour #[false, true] 1 =
      (Numbering.ofTable detour).value detour #[false, true] 2 := by
  have provided : detour.Kin 1 2 := .trans 1 0 2 (.rel 1 0 rfl) (.rel 0 2 rfl)
  have twins : detour.Twins ⟨1, false⟩ ⟨2, false⟩ := ⟨provided, rfl⟩
  have twins' : detour.Twins ⟨3, true⟩ ⟨7, true⟩ := ⟨.rel 3 7 rfl, rfl⟩
  obtain ⟨_, _, later, emits, values⟩ := aliases_transparent loopless_detour
  exact ⟨loopless_detour, twins, twins', by decide,
    later _ (.add (.branch "further") 0 .same) ⟨1, false⟩ (by decide),
    (emits _ _ (.cons twins (.cons twins' .nil))).1 0 (.exactly 2),
    (values #[false, true]).1 1 2 provided⟩

end ChoiceTable

end Loadout
