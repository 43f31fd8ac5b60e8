/-
**The tables that requests lead to.**

A table is *grounded* when its aliases lead to choices in it (`ChoiceTable.Grounded`). While a
request is registered nothing is removed, an alias is always of a candidate, and what comes after
the candidates and their aliases are branches without weight. Such tables are moreover *plain*
(`ChoiceTable.Plain`), and later ones extend earlier ones (`ChoiceTable.Extends`):

* `Ordered.grounded`: tables in which every alias comes after its target are grounded;
* **`Grounded.mem_offers`**: the offers that are there are those of the choices that are loaded;
* `Plain.root_eq`, `Plain.loads_iff`: the root of a choice is one step away;
* `Extends.root`, `Extends.offer?`, `Extends.loads`: branches change nothing about the choices that
  are there.
-/

import Loadout.Proofs.Engine.Changes
import Loadout.Request.Admissible

namespace Loadout

/-! ### What choices offer -/

/-- The mod id that a choice claims, in its version. -/
def Choice.offer? : Choice → Option Offer
  | .candidate modId _ version _ => some ⟨modId, version⟩
  | .alias _ modId version => some ⟨modId, version⟩
  | .branch _ => none

namespace ChoiceTable

/-- What a registered choice offers. -/
def offer? (table : ChoiceTable) (id : ChoiceId) : Option Offer :=
  (table.choice? id).bind Choice.offer?

/-- What the choices that are loaded offer together. -/
def offers (table : ChoiceTable) (value : ChoiceId → Bool) : List Offer :=
  (table.loadedBy value).filterMap table.offer?

variable {table : ChoiceTable} {id : ChoiceId} {value : ChoiceId → Bool}

theorem modId?_eq (table : ChoiceTable) (id : ChoiceId) :
    table.modId? id = (table.offer? id).map Offer.modId := by
  unfold modId? offer?
  cases table.choice? id with
  | none => rfl
  | some choice => cases choice <;> rfl

theorem contains_of_offer? {offer : Offer} (offered : table.offer? id = some offer) :
    table.contains id = true := by
  unfold offer? choice? at offered
  unfold contains
  cases found : table.registered? id with
  | none =>
    rw [found] at offered
    cases offered
  | some entry => rfl

/-- A link accepts or refuses the offers of its mod id. -/
theorem accepts?_iff {link : Link} {accepted : Bool} :
    link.accepts? table id = some accepted ↔ ∃ offer, table.offer? id = some offer ∧
      offer.modId = link.modId ∧ link.versions.accepts offer.version = accepted := by
  unfold Link.accepts? offer?
  cases table.choice? id with
  | none => simp
  | some choice =>
    cases choice <;> simp [Choice.modId?, Choice.version?, Choice.offer?]

end ChoiceTable

/-! ### Offers as links see them -/

theorem Offer.any_meets {modId : String} {versions : Constraint} {offers : List Offer} :
    offers.any (Offer.meets modId versions) = true ↔
      ∃ offer ∈ offers, offer.modId = modId ∧ versions.accepts offer.version = true := by
  simp [Offer.meets, List.any_eq_true]

theorem Offer.any_misses {modId : String} {versions : Constraint} {offers : List Offer} :
    offers.any (Offer.misses modId versions) = true ↔
      ∃ offer ∈ offers, offer.modId = modId ∧ versions.accepts offer.version = false := by
  simp [Offer.misses, List.any_eq_true]

namespace ChoiceTable

variable {table base later : ChoiceTable} {id : ChoiceId} {value other : ChoiceId → Bool}

/-! ### Grounded tables -/

/-- Every alias is of a choice in the table, and no chain of aliases is endless. Choices may have
been removed. -/
structure Grounded (table : ChoiceTable) : Prop where
  target : ∀ id target, table.target? id = some target → target < table.entries.size
  acyclic : table.Acyclic

/-- Tables in order are grounded, so those of an engine are. -/
theorem Ordered.grounded (ordered : table.Ordered) : table.Grounded where
  target id target found := (ordered id target found).trans (lt_of_target? found)
  acyclic := ordered.acyclic

/-- Whether a table is grounded is told from its entries. -/
theorem grounded_of_entries (ends : ∀ id, id < table.entries.size →
    (∀ target ∈ table.target? id, target < table.entries.size) ∧
      table.target? (table.root id) = none) : table.Grounded where
  target id target found := (ends id (lt_of_target? found)).1 target found
  acyclic id := by
    by_cases inside : id < table.entries.size
    · exact (ends id inside).2
    · have final : table.target? id = none :=
        Option.eq_none_iff_forall_ne_some.mpr fun target found => inside (lt_of_target? found)
      rw [root_of_final final, final]

theorem Grounded.follow_lt (grounded : table.Grounded) (steps : Nat) :
    table.follow steps id < table.entries.size ↔ id < table.entries.size := by
  induction steps generalizing id with
  | zero => exact Iff.rfl
  | succ steps ih =>
    unfold follow
    cases found : table.target? id with
    | none => exact Iff.rfl
    | some target =>
      rw [ih]
      exact iff_of_true (grounded.target id target found) (lt_of_target? found)

theorem Grounded.root_lt (grounded : table.Grounded) :
    table.root id < table.entries.size ↔ id < table.entries.size := grounded.follow_lt _

theorem loads_iff : table.loads value id = true ↔
    table.contains (table.root id) = true ∧ value (table.root id) = true := Bool.and_eq_true_iff

/-- A registered choice is listed as loaded when its root is registered and true. -/
theorem Grounded.mem_loadedBy (grounded : table.Grounded) :
    id ∈ table.loadedBy value ↔ table.contains id = true ∧ table.loads value id = true := by
  rw [ChoiceTable.mem_loadedBy, isRoot_iff, loads_iff]
  exact and_congr_right fun _ => and_congr_left fun _ => and_iff_left (grounded.acyclic id)

/-- **What is offered is what the loaded choices offer.** -/
theorem Grounded.mem_offers (grounded : table.Grounded) {offer : Offer} :
    offer ∈ table.offers value ↔
      ∃ id, table.loads value id = true ∧ table.offer? id = some offer := by
  unfold offers
  rw [List.mem_filterMap]
  refine exists_congr fun id => and_congr_left fun offered => ?_
  rw [grounded.mem_loadedBy]
  exact and_iff_right (contains_of_offer? offered)

/-! ### Values that agree -/

/-- Values agree on the choices below a number. -/
def AgreeBelow (bound : Nat) (value other : ChoiceId → Bool) : Prop :=
  ∀ id, id < bound → value id = other id

theorem AgreeBelow.mono {bound less : Nat} (agree : AgreeBelow bound value other)
    (within : less ≤ bound) : AgreeBelow less value other :=
  fun id inside => agree id (inside.trans_le within)

theorem AgreeBelow.trans {bound : Nat} {third : ChoiceId → Bool}
    (one : AgreeBelow bound value other) (two : AgreeBelow bound other third) :
    AgreeBelow bound value third :=
  fun id inside => (one id inside).trans (two id inside)

/-- What is loaded depends on the values of the choices in the table. -/
theorem loads_congr (agree : AgreeBelow table.entries.size value other) (id : ChoiceId) :
    table.loads value id = table.loads other id := by
  rw [Bool.eq_iff_iff, loads_iff, loads_iff]
  exact and_congr_right fun registered => by rw [agree _ (lt_of_contains registered)]

theorem loadedBy_congr (agree : AgreeBelow table.entries.size value other) :
    table.loadedBy value = table.loadedBy other := by
  refine List.filter_congr fun id _ => ?_
  rw [Bool.eq_iff_iff, Bool.and_eq_true, Bool.and_eq_true]
  refine and_congr_right fun isRoot => ?_
  rw [agree _ (lt_of_contains (isRoot_iff.mp isRoot).1)]

theorem offers_congr (agree : AgreeBelow table.entries.size value other) :
    table.offers value = table.offers other := by
  unfold offers
  rw [loadedBy_congr agree]

/-! ### Plain tables -/

/-- Nothing was removed, and no alias is of an alias. -/
structure Plain (table : ChoiceTable) : Prop where
  registered : ∀ entry ∈ table.entries.toList, entry.registered = true
  target : ∀ id target, table.target? id = some target →
    target < table.entries.size ∧ table.target? target = none

theorem Plain.registered? (plain : table.Plain) (id : ChoiceId) :
    table.registered? id = table.entries[id]? := by
  unfold ChoiceTable.registered?
  cases found : table.entries[id]? with
  | none => rfl
  | some entry =>
    rw [← Array.getElem?_toList] at found
    have registered := plain.registered entry (List.mem_of_getElem? found)
    simp [Option.filter, registered]

theorem Plain.contains_iff (plain : table.Plain) :
    table.contains id = true ↔ id < table.entries.size := by
  unfold contains
  rw [plain.registered?, isSome_getElem?]

/-- **The root is the target of an alias, and else the choice itself.** -/
theorem Plain.root_eq (plain : table.Plain) (id : ChoiceId) :
    table.root id = (table.target? id).getD id := by
  cases found : table.target? id with
  | none => exact root_of_final found
  | some target =>
    have inside := lt_of_target? found
    obtain ⟨steps, length⟩ : ∃ steps, table.entries.size = steps + 1 :=
      Nat.exists_eq_succ_of_ne_zero (Nat.ne_zero_of_lt inside)
    show table.follow table.entries.size id = target
    rw [length]
    unfold follow
    rw [found]
    exact follow_of_final (plain.target id target found).2 steps

theorem Plain.grounded (plain : table.Plain) : table.Grounded where
  target id target found := (plain.target id target found).1
  acyclic id := by
    rw [plain.root_eq]
    cases found : table.target? id with
    | none => exact found
    | some target => exact (plain.target id target found).2

theorem Plain.loads_iff (plain : table.Plain) :
    table.loads value id = true ↔ id < table.entries.size ∧ value (table.root id) = true := by
  rw [ChoiceTable.loads_iff, plain.contains_iff, plain.grounded.root_lt]

theorem Plain.mem_loadedBy (plain : table.Plain) :
    id ∈ table.loadedBy value ↔ table.loads value id = true := by
  rw [plain.grounded.mem_loadedBy, plain.contains_iff, plain.loads_iff]
  exact and_iff_right_of_imp And.left

/-! ### Branches -/

/-- The entry of a branch. -/
def branchEntry (label : String) : ChoiceEntry :=
  ⟨.branch label, 0, true⟩

/-- A later table has further branches and nothing else. -/
def Extends (base later : ChoiceTable) : Prop :=
  ∃ labels : List String, later.entries.toList = base.entries.toList ++ labels.map branchEntry

theorem Extends.refl (base : ChoiceTable) : base.Extends base :=
  ⟨[], (List.append_nil _).symm⟩

theorem Extends.trans {third : ChoiceTable} (one : base.Extends later)
    (two : later.Extends third) : base.Extends third := by
  obtain ⟨labels, equal⟩ := one
  obtain ⟨labels', equal'⟩ := two
  refine ⟨labels ++ labels', ?_⟩
  rw [equal', equal, List.append_assoc, List.map_append]

theorem extends_add (table : ChoiceTable) (label : String) :
    table.Extends (table.add (.branch label) 0).2 :=
  ⟨[label], Array.toList_push⟩

theorem Extends.size_le (extends' : base.Extends later) :
    base.entries.size ≤ later.entries.size := by
  obtain ⟨labels, equal⟩ := extends'
  have length := congrArg List.length equal
  rw [List.length_append, Array.length_toList, Array.length_toList] at length
  omega

theorem Extends.getElem? (extends' : base.Extends later) (inside : id < base.entries.size) :
    later.entries[id]? = base.entries[id]? := by
  obtain ⟨labels, equal⟩ := extends'
  rw [← Array.getElem?_toList, equal, ← Array.getElem?_toList]
  exact List.getElem?_append_left (by rwa [Array.length_toList])

/-- What is later and not earlier is a branch. -/
theorem Extends.getElem?_branch (extends' : base.Extends later) (beyond : base.entries.size ≤ id)
    {entry : ChoiceEntry} (found : later.entries[id]? = some entry) :
    ∃ label, entry = branchEntry label := by
  obtain ⟨labels, equal⟩ := extends'
  rw [← Array.getElem?_toList, equal,
    List.getElem?_append_right (by rwa [Array.length_toList])] at found
  obtain ⟨label, _, same⟩ := List.mem_map.mp (List.mem_of_getElem? found)
  exact ⟨label, same.symm⟩

theorem Extends.target? (extends' : base.Extends later) (id : ChoiceId) :
    later.target? id = base.target? id := by
  unfold ChoiceTable.target?
  by_cases inside : id < base.entries.size
  · rw [extends'.getElem? inside]
  · have absent : base.entries[id]? = none := Array.getElem?_eq_none (Nat.le_of_not_lt inside)
    rw [absent]
    cases found : later.entries[id]? with
    | none => rfl
    | some entry =>
      obtain ⟨label, rfl⟩ := extends'.getElem?_branch (Nat.le_of_not_lt inside) found
      rfl

theorem Extends.plain (extends' : base.Extends later) (plain : base.Plain) : later.Plain where
  registered entry inside := by
    obtain ⟨labels, equal⟩ := extends'
    rw [equal] at inside
    rcases List.mem_append.mp inside with old | new
    · exact plain.registered entry old
    · obtain ⟨label, _, rfl⟩ := List.mem_map.mp new
      rfl
  target id target found := by
    rw [extends'.target?] at found ⊢
    obtain ⟨inside, final⟩ := plain.target id target found
    exact ⟨inside.trans_le extends'.size_le, final⟩

theorem Extends.root (extends' : base.Extends later) (grounded : base.Grounded) (id : ChoiceId) :
    later.root id = base.root id :=
  root_congr (grounded.acyclic id) extends'.size_le fun _ => extends'.target? _

theorem Extends.grounded (extends' : base.Extends later) (grounded : base.Grounded) :
    later.Grounded where
  target id target found := by
    rw [extends'.target?] at found
    exact (grounded.target id target found).trans_le extends'.size_le
  acyclic id := by
    rw [extends'.root grounded, extends'.target?]
    exact grounded.acyclic id

theorem Extends.registered? (extends' : base.Extends later) (inside : id < base.entries.size) :
    later.registered? id = base.registered? id := by
  unfold ChoiceTable.registered?
  rw [extends'.getElem? inside]

theorem Extends.contains (extends' : base.Extends later) (inside : id < base.entries.size) :
    later.contains id = base.contains id := by
  unfold ChoiceTable.contains
  rw [extends'.registered? inside]

/-- Branches are registered. -/
theorem Extends.contains_branch (extends' : base.Extends later) (beyond : base.entries.size ≤ id)
    (inside : id < later.entries.size) : later.contains id = true := by
  obtain ⟨label, branch⟩ := extends'.getElem?_branch beyond (Array.getElem?_eq_getElem inside)
  unfold ChoiceTable.contains ChoiceTable.registered?
  rw [Array.getElem?_eq_getElem inside, branch]
  rfl

theorem Extends.offer? (extends' : base.Extends later) (id : ChoiceId) :
    later.offer? id = base.offer? id := by
  unfold ChoiceTable.offer? choice?
  by_cases inside : id < base.entries.size
  · rw [extends'.registered? inside]
  · unfold ChoiceTable.registered?
    have absent : base.entries[id]? = none := Array.getElem?_eq_none (Nat.le_of_not_lt inside)
    rw [absent]
    cases found : later.entries[id]? with
    | none => rfl
    | some entry =>
      obtain ⟨label, rfl⟩ := extends'.getElem?_branch (Nat.le_of_not_lt inside) found
      rfl

theorem Extends.loads (extends' : base.Extends later) (grounded : base.Grounded)
    (inside : id < base.entries.size) : later.loads value id = base.loads value id := by
  unfold ChoiceTable.loads
  rw [extends'.root grounded, extends'.contains (grounded.root_lt.mpr inside)]

theorem Extends.isRoot (extends' : base.Extends later) (isRoot : base.isRoot id = true) :
    later.isRoot id = true := by
  obtain ⟨registered, final⟩ := isRoot_iff.mp isRoot
  refine isRoot_iff.mpr ⟨?_, by rw [extends'.target?, final]⟩
  rw [extends'.contains (lt_of_contains registered), registered]

/-- **Branches offer nothing.** -/
theorem Extends.mem_offers (extends' : base.Extends later) (grounded : base.Grounded)
    {offer : Offer} :
    offer ∈ base.offers value ↔
      ∃ id, later.loads value id = true ∧ later.offer? id = some offer := by
  rw [grounded.mem_offers]
  refine exists_congr fun id => ?_
  rw [extends'.offer?]
  refine and_congr_left fun offered => ?_
  rw [extends'.loads grounded (lt_of_contains (contains_of_offer? offered))]

end ChoiceTable

end Loadout
