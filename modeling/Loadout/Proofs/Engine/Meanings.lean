/-
**What rules say about the choices.**

Where no chain of aliases is endless, a handle is judged by the registered root of its choice
(`ChoiceTable.loads`, `ChoiceTable.makes`). `Rule.Says` puts the meaning of each kind of rule in
these terms:

* `sort_spec`: the cardinalities that rules ask for name registered roots, each handle once;
* `clause_spec`, `atMost_spec`: what the two kinds of cardinality that rules ask for say;
* **`define_spec`**: a rule is defined without an error, by constraints on registered roots that say
  what the rule says.
-/

import Loadout.Engine.Rule
import Loadout.Proofs.Engine.Checks

namespace Loadout

namespace ChoiceTable

variable {table : ChoiceTable}

/-- No chain of aliases is endless. -/
def Acyclic (table : ChoiceTable) : Prop :=
  ∀ id, table.target? (table.root id) = none

/-- Whether the root of a choice is registered and true. -/
def loads (table : ChoiceTable) (value : ChoiceId → Bool) (id : ChoiceId) : Bool :=
  table.contains (table.root id) && value (table.root id)

/-- Whether a handle is true, those on choices without a registered root being false. -/
def makes (table : ChoiceTable) (value : ChoiceId → Bool) (handle : Handle) : Bool :=
  table.loads value handle.choice != handle.negated

theorem Acyclic.isRoot_root (acyclic : table.Acyclic) {id : ChoiceId}
    (registered : table.contains (table.root id) = true) : table.isRoot (table.root id) = true :=
  isRoot_iff.mpr ⟨registered, acyclic id⟩

theorem Acyclic.loads_root (acyclic : table.Acyclic) (value : ChoiceId → Bool) (id : ChoiceId) :
    table.loads value (table.root id) = table.loads value id := by
  unfold loads
  rw [root_root (acyclic id)]

@[simp] theorem makes_ofChoice (value : ChoiceId → Bool) (id : ChoiceId) :
    table.makes value (.ofChoice id) = table.loads value id := Bool.bne_false _

theorem Acyclic.makes_noneOf (acyclic : table.Acyclic) (value : ChoiceId → Bool) (id : ChoiceId) :
    table.makes value (Rule.noneOf table id) = !table.loads value id := by
  show (table.loads value (table.root id) != !false) = _
  rw [acyclic.loads_root, Bool.not_false, Bool.bne_true]

end ChoiceTable

namespace Cardinality

variable {table : ChoiceTable} {value : ChoiceId → Bool}

/-! ### Sorting handles -/

/-- One step of sorting. -/
def sortStep (table : ChoiceTable) (state : List Handle × Nat) (handle : Handle) :
    List Handle × Nat :=
  if !table.contains (table.root handle.choice) then
    (state.1, if handle.negated then state.2 + 1 else state.2)
  else if state.1.contains (table.resolve handle) then state
  else (state.1 ++ [table.resolve handle], state.2)

theorem sort_eq (table : ChoiceTable) (handles : List Handle) :
    sort table handles = handles.foldl (sortStep table) ([], 0) := rfl

/-- Whether a handle is true because its root is not registered. -/
def isFixed (table : ChoiceTable) (handle : Handle) : Bool :=
  !table.contains (table.root handle.choice) && handle.negated

/-- What sorting has made of some handles: those on registered roots are kept, each once, and those
that are fixed are counted. -/
structure Sorted (table : ChoiceTable) (handles : List Handle) (state : List Handle × Nat) :
    Prop where
  distinct : state.1.Nodup
  kept : ∀ handle, handle ∈ state.1 ↔
    table.contains handle.choice = true ∧ ∃ given ∈ handles, table.resolve given = handle
  fixed : state.2 = (handles.filter (isFixed table)).length
  fewer : state.1.length + state.2 ≤ handles.length

theorem Sorted.step {handles : List Handle} {state : List Handle × Nat}
    (sorted : Sorted table handles state) (handle : Handle) :
    Sorted table (handles ++ [handle]) (sortStep table state handle) := by
  obtain ⟨distinct, kept, fixed, fewer⟩ := sorted
  have grown : ∀ other, (∃ given ∈ handles ++ [handle], table.resolve given = other) ↔
      (∃ given ∈ handles, table.resolve given = other) ∨ table.resolve handle = other := by
    intro other
    simp [or_and_right, exists_or]
  unfold sortStep
  by_cases registered : table.contains (table.root handle.choice) = true
  · have counted : ((handles ++ [handle]).filter (isFixed table)).length = state.2 := by
      rw [List.filter_append, fixed]
      simp [isFixed, registered]
    rw [registered]
    simp only [Bool.not_true, Bool.false_eq_true, if_false]
    by_cases known : state.1.contains (table.resolve handle) = true
    · rw [if_pos known]
      refine ⟨distinct, fun other => ?_, counted.symm, ?_⟩
      · rw [kept, grown]
        refine and_congr_right fun _ => ⟨Or.inl, fun either => either.elim id fun same => ?_⟩
        rw [← same]
        exact ((kept _).mp (List.contains_iff_mem.mp known)).2
      · rw [List.length_append]
        omega
    · rw [if_neg known]
      have absent : table.resolve handle ∉ state.1 := fun inside =>
        known (List.contains_iff_mem.mpr inside)
      refine ⟨List.nodup_append.mpr ⟨distinct, List.nodup_singleton _, ?_⟩, fun other => ?_,
        counted.symm, ?_⟩
      · intro first old second new same
        rw [List.mem_singleton.mp new] at same
        exact absent (same ▸ old)
      · rw [List.mem_append, kept, grown, List.mem_singleton, and_or_left]
        refine or_congr_right ⟨fun same => ⟨?_, same.symm⟩, fun both => both.2.symm⟩
        rw [same]
        exact registered
      · rw [List.length_append, List.length_append]
        dsimp only
        have one : [table.resolve handle].length = [handle].length := rfl
        omega
  · rw [Bool.not_eq_true] at registered
    rw [registered]
    simp only [Bool.not_false, if_true]
    refine ⟨distinct, fun other => ?_, ?_, ?_⟩
    · rw [kept, grown]
      refine and_congr_right fun there => ⟨Or.inl, fun either => either.elim id fun same => ?_⟩
      rw [← same] at there
      exact absurd (there.symm.trans registered) Bool.true_eq_false.mp
    · rw [List.filter_append, List.length_append, ← fixed]
      unfold isFixed
      cases negated : handle.negated <;> simp [registered, negated]
    · rw [List.length_append]
      have one : [handle].length = 1 := rfl
      dsimp only
      split <;> omega

/-- **Sorting keeps each handle on a registered root once**, and counts those that are fixed. -/
theorem sort_spec (table : ChoiceTable) (handles : List Handle) :
    Sorted table handles (sort table handles) := by
  rw [sort_eq]
  have general : ∀ (rest before : List Handle) (state : List Handle × Nat),
      Sorted table before state →
        Sorted table (before ++ rest) (rest.foldl (sortStep table) state) := by
    intro rest
    induction rest with
    | nil =>
      intro before state sorted
      rw [List.append_nil]
      exact sorted
    | cons handle rest ih =>
      intro before state sorted
      rw [List.append_cons]
      exact ih _ _ (sorted.step handle)
  refine general handles [] ([], 0) ⟨List.nodup_nil, ?_, rfl, Nat.le_refl 0⟩
  simp

/-! ### What cardinalities say -/

/-- A handle that is kept says what the given handles say of which it is the root. -/
theorem holds_resolve {given : Handle}
    (registered : table.contains (table.root given.choice) = true) :
    (table.resolve given).holds value = table.makes value given := by
  unfold Handle.holds ChoiceTable.makes ChoiceTable.loads
  rw [registered, Bool.true_and]
  rfl

/-- Some handle is true when one is fixed or one of those kept is true. -/
theorem Sorted.exists_makes {handles : List Handle} {state : List Handle × Nat}
    (sorted : Sorted table handles state) :
    (∃ handle ∈ handles, table.makes value handle = true) ↔
      0 < state.2 ∨ 0 < (state.1.filter (Handle.holds value)).length := by
  rw [sorted.fixed, List.length_pos_iff_exists_mem, List.length_pos_iff_exists_mem]
  simp only [List.mem_filter]
  constructor
  · rintro ⟨handle, inside, makes⟩
    by_cases registered : table.contains (table.root handle.choice) = true
    · refine Or.inr ⟨table.resolve handle,
        (sorted.kept _).mpr ⟨registered, handle, inside, rfl⟩, ?_⟩
      rw [holds_resolve registered]
      exact makes
    · rw [Bool.not_eq_true] at registered
      refine Or.inl ⟨handle, inside, ?_⟩
      unfold ChoiceTable.makes ChoiceTable.loads at makes
      rw [registered, Bool.false_and, Bool.false_bne] at makes
      unfold isFixed
      rw [registered, makes]
      rfl
  · rintro (⟨handle, inside, fixed⟩ | ⟨kept, inside, holds⟩)
    · obtain ⟨unregistered, negated⟩ := Bool.and_eq_true_iff.mp fixed
      rw [Bool.not_eq_true'] at unregistered
      refine ⟨handle, inside, ?_⟩
      unfold ChoiceTable.makes ChoiceTable.loads
      rw [unregistered, negated]
      rfl
    · obtain ⟨registered, given, member, rfl⟩ := (sorted.kept kept).mp inside
      refine ⟨given, member, ?_⟩
      rw [← holds_resolve registered]
      exact holds

/-- What is left of a cardinality is about registered roots. -/
theorem rooted_fold (acyclic : table.Acyclic) (handles : List Handle) (least most : Nat) :
    (fold table handles least most).Rooted table := by
  have sorted := sort_spec table handles
  unfold fold
  generalize sort table handles = state at sorted
  obtain ⟨kept, fixed⟩ := state
  dsimp only
  split
  · exact fun handle inside => absurd inside List.not_mem_nil
  · intro handle inside
    obtain ⟨registered, given, _, rfl⟩ := (sorted.kept handle).mp inside
    exact acyclic.isRoot_root registered

/-- **A clause says that one of its handles is true.** -/
theorem clause_spec (acyclic : table.Acyclic) (rule : RuleId) {handles : List Handle}
    (nonempty : handles ≠ []) :
    ∃ cardinality, atLeastOneOf table rule handles = .ok cardinality ∧
      cardinality.Rooted table ∧ ∀ value, cardinality.holds value = true ↔
        ∃ handle ∈ handles, table.makes value handle = true := by
  refine ⟨_, if_neg fun empty => nonempty (List.isEmpty_iff.mp empty), rooted_fold acyclic _ _ _,
    fun value => ?_⟩
  have sorted := sort_spec table handles
  rw [sorted.exists_makes]
  have fewer := sorted.fewer
  unfold fold
  generalize sort table handles = state at fewer
  obtain ⟨kept, fixed⟩ := state
  dsimp only at fewer ⊢
  have within := List.length_filter_le (Handle.holds value) kept
  rw [if_neg (by omega)]
  unfold holds
  dsimp only
  rw [Bool.and_eq_true, decide_eq_true_iff, decide_eq_true_iff]
  omega

/-- The registered roots of some choices, each once, that are true. -/
def trueRoots (table : ChoiceTable) (value : ChoiceId → Bool) (members : List ChoiceId) :
    List Handle :=
  (sort table (Rule.allOf members)).1.filter (Handle.holds value)

theorem mem_trueRoots {members : List ChoiceId} {handle : Handle} :
    handle ∈ trueRoots table value members ↔
      ∃ id ∈ members, table.loads value id = true ∧ handle = .ofChoice (table.root id) := by
  have sorted := sort_spec table (Rule.allOf members)
  unfold trueRoots
  rw [List.mem_filter, sorted.kept]
  constructor
  · rintro ⟨⟨registered, given, inside, rfl⟩, holds⟩
    obtain ⟨id, member, rfl⟩ := List.mem_map.mp inside
    rw [holds_resolve registered, ChoiceTable.makes_ofChoice] at holds
    exact ⟨id, member, holds, rfl⟩
  · rintro ⟨id, member, loads, rfl⟩
    have registered : table.contains (table.root id) = true := (Bool.and_eq_true_iff.mp loads).1
    refine ⟨⟨registered, .ofChoice id, List.mem_map_of_mem member, rfl⟩, ?_⟩
    have same : (table.resolve (.ofChoice id)).holds value = table.makes value (.ofChoice id) :=
      holds_resolve registered
    rw [ChoiceTable.makes_ofChoice] at same
    exact same.trans loads

/-- Choices without a registered root are false, so none of them is fixed. -/
theorem sort_allOf (table : ChoiceTable) (members : List ChoiceId) :
    (sort table (Rule.allOf members)).2 = 0 := by
  rw [(sort_spec table (Rule.allOf members)).fixed, List.length_eq_zero_iff,
    List.filter_eq_nil_iff]
  intro handle inside
  obtain ⟨id, _, rfl⟩ := List.mem_map.mp inside
  unfold isFixed Handle.ofChoice
  rw [Bool.and_false]
  exact Bool.false_ne_true

/-- **A bound says how many roots of its choices are true.** -/
theorem atMost_spec (acyclic : table.Acyclic) (rule : RuleId) {count : Nat}
    {members : List ChoiceId} (enough : count ≤ members.length) :
    ∃ cardinality, atMost table rule count (Rule.allOf members) = .ok cardinality ∧
      cardinality.Rooted table ∧ ∀ value, cardinality.holds value = true ↔
        (trueRoots table value members).length ≤ count := by
  have checked : checkCount rule count (Rule.allOf members) = .ok () := by
    refine if_neg ?_
    unfold Rule.allOf
    rw [List.length_map]
    omega
  have free := sort_allOf table members
  refine ⟨fold table (Rule.allOf members) 0 count, ?_, rooted_fold acyclic _ _ _, fun value => ?_⟩
  · unfold atMost
    rw [checked]
    rfl
  · unfold trueRoots fold
    generalize sort table (Rule.allOf members) = state at free
    obtain ⟨kept, fixed⟩ := state
    dsimp only at free ⊢
    rw [free, if_neg (Nat.not_lt_zero _)]
    unfold holds
    dsimp only
    rw [Bool.and_eq_true, decide_eq_true_iff, decide_eq_true_iff]
    omega

theorem length_le_one_iff {α : Type} {list : List α} (distinct : list.Nodup) :
    list.length ≤ 1 ↔ ∀ first ∈ list, ∀ second ∈ list, first = second := by
  rcases list with _ | ⟨first, _ | ⟨second, rest⟩⟩
  · simp
  · simp
  · refine iff_of_false (by simp) fun alike => ?_
    have same := alike first List.mem_cons_self second (List.mem_cons_of_mem _ List.mem_cons_self)
    exact (List.nodup_cons.mp distinct).1 (same ▸ List.mem_cons_self)

/-- At most one root is true when any two true choices have the same. -/
theorem trueRoots_le_one {members : List ChoiceId} :
    (trueRoots table value members).length ≤ 1 ↔
      ∀ first ∈ members, ∀ second ∈ members, table.loads value first = true →
        table.loads value second = true → table.root first = table.root second := by
  have distinct : (trueRoots table value members).Nodup :=
    (sort_spec table (Rule.allOf members)).distinct.filter _
  rw [length_le_one_iff distinct]
  constructor
  · intro single first inside second inside' loads loads'
    have one := mem_trueRoots.mpr ⟨first, inside, loads, rfl⟩
    have two := mem_trueRoots.mpr ⟨second, inside', loads', rfl⟩
    exact congrArg Handle.choice (single _ one _ two)
  · intro alike first one second two
    obtain ⟨id, inside, loads, rfl⟩ := mem_trueRoots.mp one
    obtain ⟨id', inside', loads', rfl⟩ := mem_trueRoots.mp two
    rw [alike id inside id' inside' loads loads']

/-- No root is true when no choice is. -/
theorem trueRoots_le_zero {members : List ChoiceId} :
    (trueRoots table value members).length ≤ 0 ↔
      ∀ id ∈ members, table.loads value id = false := by
  rw [Nat.le_zero, List.length_eq_zero_iff, List.eq_nil_iff_forall_not_mem]
  constructor
  · intro none id inside
    by_contra loads
    rw [Bool.not_eq_false] at loads
    exact none _ (mem_trueRoots.mpr ⟨id, inside, loads, rfl⟩)
  · intro none handle inside
    obtain ⟨id, member, loads, _⟩ := mem_trueRoots.mp inside
    rw [none id member] at loads
    cases loads

end Cardinality

namespace Rule

variable {table : ChoiceTable} {value : ChoiceId → Bool}

/-! ### What rules say -/

/-- The exception of a link is true. -/
def Excused (table : ChoiceTable) (value : ChoiceId → Bool) (exception : Option ChoiceId) : Prop :=
  ∃ id, exception = some id ∧ table.loads value id = true

/-- What a breakage says when all of its targets are true and it is not excused. -/
def Clash (table : ChoiceTable) (value : ChoiceId → Bool) (source : ChoiceId) :
    BreakRole → Prop
  | .standalone => table.loads value source = false
  | .part => table.loads value source = true

/-- **What a rule says about the values of the choices.** -/
def Says (table : ChoiceTable) (value : ChoiceId → Bool) : Rule → Prop
  | .mandatory choice => table.loads value choice = true
  | .optionalSet _ members => ∀ first ∈ members, ∀ second ∈ members,
      table.loads value first = true → table.loads value second = true →
        table.root first = table.root second
  | .overriddenSet _ _ members => ∀ id ∈ members, table.loads value id = false
  | .dependsOnly source link exception valid invalid => table.loads value source = true →
      (if link.optional then ∀ id ∈ invalid, table.loads value id = false
      else ∃ id ∈ valid, table.loads value id = true) ∨ Excused table value exception
  | .dependsAny source alternatives exception => table.loads value source = true →
      (∃ id ∈ alternatives, table.loads value id = true) ∨ Excused table value exception
  | .breaksOnly source _ exception role conflicts => ∀ id ∈ conflicts,
      table.loads value id = true → Excused table value exception ∨ Clash table value source role
  | .breaksAll source parts exception role => parts ≠ [] →
      (∀ id ∈ parts, table.loads value id = true) →
        Excused table value exception ∨ Clash table value source role

theorem exists_allOf {choices : List ChoiceId} :
    (∃ handle ∈ allOf choices, table.makes value handle = true) ↔
      ∃ id ∈ choices, table.loads value id = true := by
  unfold allOf
  simp

theorem exists_exception {exception : Option ChoiceId} :
    (∃ handle ∈ allOf exception.toList, table.makes value handle = true) ↔
      Excused table value exception := by
  rw [exists_allOf]
  unfold Excused
  cases exception <;> simp

theorem exists_append {test : Handle → Prop} {first second : List Handle} :
    (∃ handle ∈ first ++ second, test handle) ↔
      (∃ handle ∈ first, test handle) ∨ ∃ handle ∈ second, test handle := by
  simp [or_and_right, exists_or]

theorem exists_noneOf (acyclic : table.Acyclic) {source : ChoiceId} {rest : List Handle} :
    (∃ handle ∈ noneOf table source :: rest, table.makes value handle = true) ↔
      (table.loads value source = true → ∃ handle ∈ rest, table.makes value handle = true) := by
  rw [List.exists_mem_cons_iff, acyclic.makes_noneOf, Bool.not_eq_true']
  cases table.loads value source <;> simp

/-- Some of the opposites of choices are true when not all choices are. -/
theorem exists_noneOf_map (acyclic : table.Acyclic) {targets : List ChoiceId} :
    (∃ handle ∈ targets.map (noneOf table), table.makes value handle = true) ↔
      ¬∀ id ∈ targets, table.loads value id = true := by
  simp [acyclic.makes_noneOf]

/-- **The clause of a breakage says what the breakage says.** -/
theorem exists_breakClause (acyclic : table.Acyclic) {source : ChoiceId}
    {exception : Option ChoiceId} {role : BreakRole} {targets : List ChoiceId} :
    (∃ handle ∈ breakClause source exception role table targets,
      table.makes value handle = true) ↔
      ((∀ id ∈ targets, table.loads value id = true) →
        Excused table value exception ∨ Clash table value source role) := by
  unfold breakClause
  cases role with
  | standalone =>
    dsimp only
    rw [List.cons_append, exists_noneOf acyclic, exists_append, exists_noneOf_map acyclic,
      exists_exception]
    unfold Clash
    cases table.loads value source <;> simp [imp_iff_not_or]
  | part =>
    dsimp only
    rw [exists_append, exists_append, exists_noneOf_map acyclic, exists_exception]
    unfold Clash
    simp [imp_iff_not_or, or_assoc]

theorem breakClause_ne_nil (source : ChoiceId) (exception : Option ChoiceId) (role : BreakRole)
    (table : ChoiceTable) (targets : List ChoiceId) :
    breakClause source exception role table targets ≠ [] := by
  cases role with
  | standalone => exact List.cons_ne_nil _ _
  | part => exact List.append_ne_nil_of_right_ne_nil _ (List.cons_ne_nil _ _)

/-- An excuse counts for all choices together. -/
theorem forall_excused {excused sourced : Prop} {invalid : List ChoiceId} :
    (∀ id ∈ invalid, sourced → table.loads value id = true → excused) ↔
      (sourced → (∀ id ∈ invalid, table.loads value id = false) ∨ excused) := by
  by_cases given : excused
  · exact iff_of_true (fun _ _ _ _ => given) fun _ => Or.inr given
  · simp only [given, or_false, imp_false, Bool.not_eq_true]
    exact ⟨fun each holds id inside => each id inside holds, fun all id inside holds =>
      all holds id inside⟩

/-- One clause for each of several choices. -/
theorem clauses_spec (acyclic : table.Acyclic) (id : RuleId) {clause : ChoiceId → List Handle}
    (nonempty : ∀ choice, clause choice ≠ []) (choices : List ChoiceId) :
    ∃ cardinalities,
      (choices.mapM fun choice => Cardinality.atLeastOneOf table id (clause choice)) =
        .ok cardinalities ∧
      (∀ cardinality ∈ cardinalities, cardinality.Rooted table) ∧
      ∀ value, (∀ cardinality ∈ cardinalities, cardinality.holds value = true) ↔
        ∀ choice ∈ choices, ∃ handle ∈ clause choice, table.makes value handle = true := by
  induction choices with
  | nil => exact ⟨[], rfl, by simp, by simp⟩
  | cons choice rest ih =>
    obtain ⟨cardinality, made, rooted, meaning⟩ :=
      Cardinality.clause_spec acyclic id (nonempty choice)
    obtain ⟨others, made', rooted', meaning'⟩ := ih
    refine ⟨cardinality :: others, ?_, List.forall_mem_cons.mpr ⟨rooted, rooted'⟩, fun value => ?_⟩
    · rw [List.mapM_cons, made, made']
      rfl
    · rw [List.forall_mem_cons, List.forall_mem_cons, meaning, meaning']

/-- What a rule is defined to: constraints on registered roots that say what the rule says. -/
def DefinedBy (table : ChoiceTable) (rule : Rule)
    (result : Except DefinitionError (List Cardinality)) : Prop :=
  ∃ cardinalities, result = .ok cardinalities ∧
    (∀ cardinality ∈ cardinalities, cardinality.Rooted table) ∧
    ∀ value, (∀ cardinality ∈ cardinalities, cardinality.holds value = true) ↔
      rule.Says table value

/-- A rule that is one constraint. -/
theorem definedBy_single {rule : Rule} {made : Except DefinitionError Cardinality}
    {meaning : (ChoiceId → Bool) → Prop}
    (single : ∃ cardinality, made = .ok cardinality ∧ cardinality.Rooted table ∧
      ∀ value, cardinality.holds value = true ↔ meaning value)
    (equivalent : ∀ value, meaning value ↔ rule.Says table value) :
    rule.DefinedBy table (do return [← made]) := by
  obtain ⟨cardinality, rfl, rooted, holds⟩ := single
  refine ⟨[cardinality], rfl, List.forall_mem_singleton.mpr rooted, fun value => ?_⟩
  rw [List.forall_mem_singleton, holds, equivalent]

/-- **Every rule is defined without an error, and says what it means.** -/
theorem define_spec (acyclic : table.Acyclic) (id : RuleId) (rule : Rule) :
    rule.DefinedBy table (rule.define table id) := by
  cases rule with
  | mandatory choice =>
    refine definedBy_single
      (Cardinality.clause_spec acyclic id (List.cons_ne_nil _ _)) fun value => ?_
    simp [Says]
  | optionalSet modId members =>
    by_cases few : members.length < 2
    · refine ⟨[], if_pos few, by simp, fun value => iff_of_true (by simp) ?_⟩
      rcases members with _ | ⟨only, _ | ⟨second, rest⟩⟩
      · simp [Says]
      · simp [Says]
      · rw [List.length_cons, List.length_cons] at few
        omega
    · unfold define
      dsimp only
      rw [if_neg few]
      exact definedBy_single (Cardinality.atMost_spec acyclic id (by omega)) fun value =>
        Cardinality.trueRoots_le_one
  | overriddenSet modId winner members =>
    exact definedBy_single (Cardinality.atMost_spec acyclic id (Nat.zero_le _)) fun value =>
      Cardinality.trueRoots_le_zero
  | dependsOnly source link exception valid invalid =>
    unfold define
    dsimp only
    by_cases optional : link.optional = true
    · rw [if_pos optional]
      obtain ⟨cardinalities, made, rooted, meaning⟩ := clauses_spec acyclic id
        (fun choice => List.cons_ne_nil (noneOf table source)
          (noneOf table choice :: allOf exception.toList)) invalid
      refine ⟨cardinalities, made, rooted, fun value => (meaning value).trans ?_⟩
      simp only [exists_noneOf acyclic, exists_exception, Says, optional, if_true]
      exact forall_excused
    · rw [if_neg optional]
      refine definedBy_single (Cardinality.clause_spec acyclic id (List.cons_ne_nil _ _))
        fun value => ?_
      rw [List.cons_append, exists_noneOf acyclic, exists_append, exists_allOf, exists_exception]
      unfold Says
      dsimp only
      rw [if_neg optional]
  | dependsAny source alternatives exception =>
    refine definedBy_single (Cardinality.clause_spec acyclic id (List.cons_ne_nil _ _))
      fun value => ?_
    rw [List.cons_append, exists_noneOf acyclic, exists_append, exists_allOf, exists_exception]
    rfl
  | breaksOnly source link exception role conflicts =>
    obtain ⟨cardinalities, made, rooted, meaning⟩ := clauses_spec acyclic id
      (fun choice => breakClause_ne_nil source exception role table [choice]) conflicts
    refine ⟨cardinalities, made, rooted, fun value => (meaning value).trans ?_⟩
    simp only [exists_breakClause acyclic, List.forall_mem_singleton, Says]
  | breaksAll source parts exception role =>
    unfold define
    dsimp only
    by_cases none : parts.isEmpty = true
    · rw [if_pos none]
      refine ⟨[], rfl, by simp, fun value => iff_of_true (by simp) fun some => ?_⟩
      exact absurd (List.isEmpty_iff.mp none) some
    · rw [if_neg none]
      refine definedBy_single (Cardinality.clause_spec acyclic id
        (breakClause_ne_nil source exception role table parts)) fun value => ?_
      rw [exists_breakClause acyclic]
      have some : parts ≠ [] := fun empty => none (List.isEmpty_iff.mpr empty)
      exact ⟨fun holds _ => holds, fun holds => holds some⟩

end Rule

end Loadout
