/-
**What rules list.**

Rules of four kinds list registered choices. What such a list is for is a matter of the single choice
and its root (`Kind`), and whatever happens to the choices is done to all lists of a rule alike
(`Rule.relist`):

* `choiceAdded_eq`: a choice that is added is appended to the lists that are for it;
* `choiceRemoved_eq`: a choice that is removed is taken out of all lists;
* **`acquaint_blank`**: a rule that is new lists the registered choices that its lists are for, in
  ascending order; `acquaint_optionalSet` and so on say so of the rules of each kind.
-/

import Loadout.Proofs.Engine.Solutions

namespace Loadout

/-- Which choices a list of a rule is for, given the choice and its root. -/
abbrev Kind := Choice → ChoiceId → Bool

namespace Kind

/-- The choices of a mod id. -/
def ofMod (modId : String) : Kind :=
  fun choice _ => choice.modId? = some modId

/-- The choices of a mod id that stand for another one than the winner. -/
def rivals (modId : String) (winner : ChoiceId) : Kind :=
  fun choice root => root ≠ winner ∧ choice.modId? = some modId

/-- The choices of a link's mod id that match it, or that do not. -/
def matching (link : Link) (verdict : Bool) : Kind :=
  fun choice _ => choice.modId? = some link.modId ∧
    (choice.version?.map link.versions.accepts).getD false = verdict

end Kind

namespace ChoiceTable

variable {table : ChoiceTable}

/-- Whether a choice is registered and of a kind. -/
def shows (table : ChoiceTable) (kind : Kind) (id : ChoiceId) : Bool :=
  (table.choice? id).any fun choice => kind choice (table.root id)

theorem shows_ofMod (table : ChoiceTable) (modId : String) (id : ChoiceId) :
    table.shows (.ofMod modId) id = (table.modId? id == some modId) := by
  unfold shows modId? Kind.ofMod
  rw [Bool.beq_eq_decide_eq]
  cases table.choice? id <;> rfl

theorem shows_rivals (table : ChoiceTable) (modId : String) (winner id : ChoiceId) :
    table.shows (.rivals modId winner) id =
      decide (table.root id ≠ winner ∧ table.modId? id = some modId) := by
  unfold shows modId? Kind.rivals
  cases table.choice? id with
  | none => exact (decide_eq_false fun both => nomatch both.2).symm
  | some choice => rfl

theorem shows_matching (table : ChoiceTable) (link : Link) (verdict : Bool) (id : ChoiceId) :
    table.shows (.matching link verdict) id = (link.accepts? table id == some verdict) := by
  unfold shows Link.accepts? Kind.matching
  cases table.choice? id with
  | none => rfl
  | some choice =>
    dsimp only [Option.any_some]
    split
    · next same => simp [same, Bool.beq_eq_decide_eq]
    · next other => simp [other]

/-- The numbers of registered choices ascend. -/
theorem ids_sorted (table : ChoiceTable) : table.ids.Pairwise (· < ·) := by
  have places : (table.entries.toList.zipIdx.map Prod.snd).Pairwise (· < ·) := by
    rw [List.zipIdx_map_snd]
    exact List.pairwise_lt_range'
  have within : table.ids.Sublist (table.entries.toList.zipIdx.map Prod.snd) := by
    unfold ids toList
    rw [List.map_map]
    exact List.filter_sublist.map _
  exact places.sublist within

theorem ids_nodup (table : ChoiceTable) : table.ids.Nodup :=
  table.ids_sorted.imp Nat.ne_of_lt

end ChoiceTable

namespace Rule

variable {table : ChoiceTable} {rule : Rule}

/-! ### The lists of a rule -/

/-- The rule with other lists. -/
def relist (edit : Kind → List ChoiceId → List ChoiceId) : Rule → Rule
  | .optionalSet modId members => .optionalSet modId (edit (.ofMod modId) members)
  | .overriddenSet modId winner members =>
    .overriddenSet modId winner (edit (.rivals modId winner) members)
  | .dependsOnly source link exception valid invalid =>
    .dependsOnly source link exception (edit (.matching link true) valid)
      (edit (.matching link false) invalid)
  | .breaksOnly source link exception role conflicts =>
    .breaksOnly source link exception role (edit (.matching link true) conflicts)
  | rule => rule

/-- Something is true of every list of a rule. -/
def Each (law : Kind → List ChoiceId → Prop) : Rule → Prop
  | .optionalSet modId members => law (.ofMod modId) members
  | .overriddenSet modId winner members => law (.rivals modId winner) members
  | .dependsOnly _ link _ valid invalid =>
    law (.matching link true) valid ∧ law (.matching link false) invalid
  | .breaksOnly _ link _ _ conflicts => law (.matching link true) conflicts
  | _ => True

/-- A rule that has taken note of no choice, as it is made. -/
def Blank (rule : Rule) : Prop :=
  rule.Each fun _ members => members = []

theorem each_relist {law : Kind → List ChoiceId → Prop}
    {edit : Kind → List ChoiceId → List ChoiceId} :
    (rule.relist edit).Each law ↔ rule.Each fun kind members => law kind (edit kind members) := by
  cases rule <;> exact Iff.rfl

theorem Each.imp {law law' : Kind → List ChoiceId → Prop} (each : rule.Each law)
    (weaker : ∀ kind members, law kind members → law' kind members) : rule.Each law' := by
  cases rule with
  | dependsOnly => exact ⟨weaker _ _ each.1, weaker _ _ each.2⟩
  | optionalSet | overriddenSet | breaksOnly => exact weaker _ _ each
  | mandatory | dependsAny | breaksAll => trivial

theorem relist_self (rule : Rule) : (rule.relist fun _ members => members) = rule := by
  cases rule <;> rfl

theorem relist_relist (rule : Rule) (first second : Kind → List ChoiceId → List ChoiceId) :
    (rule.relist first).relist second =
      rule.relist fun kind members => second kind (first kind members) := by
  cases rule <;> rfl

theorem relist_congr {edit edit' : Kind → List ChoiceId → List ChoiceId}
    (same : rule.Each fun kind members => edit kind members = edit' kind members) :
    rule.relist edit = rule.relist edit' := by
  cases rule with
  | dependsOnly => exact congrArg₂ (Rule.dependsOnly _ _ _) same.1 same.2
  | optionalSet modId members => exact congrArg (Rule.optionalSet modId) same
  | overriddenSet modId winner members => exact congrArg (Rule.overriddenSet modId winner) same
  | breaksOnly => exact congrArg (Rule.breaksOnly _ _ _ _) same
  | mandatory | dependsAny | breaksAll => rfl

/-! ### Taking note of choices -/

/-- The list of a rule after a choice was registered. -/
def enlist (table : ChoiceTable) (id : ChoiceId) (kind : Kind) (members : List ChoiceId) :
    List ChoiceId :=
  if table.shows kind id then (insertNew id members).2 else members

/-- **A choice that is added is appended to the lists that are for it.** -/
theorem choiceAdded_eq (table : ChoiceTable) (id : ChoiceId) (rule : Rule) :
    (rule.choiceAdded table id).2 = rule.relist (enlist table id) := by
  cases rule with
  | optionalSet modId members =>
    simp only [choiceAdded, relist, enlist, ChoiceTable.shows_ofMod]
    by_cases same : table.modId? id = some modId <;> simp [same]
  | overriddenSet modId winner members =>
    simp only [choiceAdded, relist, enlist, ChoiceTable.shows_rivals]
    by_cases same : table.root id ≠ winner ∧ table.modId? id = some modId <;> simp [same]
  | dependsOnly source link exception valid invalid =>
    simp only [choiceAdded, relist, enlist, ChoiceTable.shows_matching]
    cases link.accepts? table id with
    | none => simp
    | some verdict => cases verdict <;> simp
  | breaksOnly source link exception role conflicts =>
    simp only [choiceAdded, relist, enlist, ChoiceTable.shows_matching]
    cases link.accepts? table id with
    | none => simp
    | some verdict => cases verdict <;> simp
  | mandatory | dependsAny | breaksAll => rfl

/-- **A choice that is removed is taken out of all lists.** -/
theorem choiceRemoved_eq (id : ChoiceId) (rule : Rule) :
    (rule.choiceRemoved id).2 = rule.relist fun _ members => members.erase id := by
  cases rule <;> rfl

/-! ### New rules -/

/-- New members come after those that are there. -/
theorem foldl_insertNew (test : ChoiceId → Bool) {ids members : List ChoiceId}
    (distinct : (members ++ ids).Nodup) :
    ids.foldl (fun members id => if test id then (insertNew id members).2 else members) members =
      members ++ ids.filter test := by
  induction ids generalizing members with
  | nil => exact (List.append_nil _).symm
  | cons id rest ih =>
    rw [List.foldl_cons]
    by_cases holds : test id = true
    · have new : id ∉ members := fun old =>
        (List.disjoint_of_nodup_append distinct) old List.mem_cons_self
      have inserted : (insertNew id members).2 = members ++ [id] := by
        unfold insertNew
        rw [if_neg (by rwa [List.contains_iff_mem])]
      rw [if_pos holds, inserted, List.filter_cons_of_pos holds]
      rw [ih (by rwa [List.append_assoc]), List.append_assoc]
      rfl
    · rw [if_neg holds, List.filter_cons_of_neg holds]
      refine ih (distinct.sublist ?_)
      exact (List.Sublist.refl members).append (List.sublist_cons_self id rest)

end Rule

namespace Engine

variable {table : ChoiceTable} {rule : Rule}

/-- A rule takes note of one registered choice after the other. -/
theorem acquaint_eq (table : ChoiceTable) (rule : Rule) :
    acquaint table rule = rule.relist fun kind members =>
      table.ids.foldl (fun members id => Rule.enlist table id kind members) members := by
  unfold acquaint
  induction table.ids generalizing rule with
  | nil => exact rule.relist_self.symm
  | cons id rest ih => rw [List.foldl_cons, ih, Rule.choiceAdded_eq, Rule.relist_relist]; rfl

/-- **A new rule lists the registered choices that its lists are for.** -/
theorem acquaint_blank (table : ChoiceTable) (blank : rule.Blank) :
    acquaint table rule = rule.relist fun kind _ => table.ids.filter (table.shows kind) := by
  rw [acquaint_eq]
  refine Rule.relist_congr (blank.imp fun kind members none => ?_)
  rw [none]
  exact Rule.foldl_insertNew (table.shows kind) table.ids_nodup

/-- A rule that takes no note of choices stays as it is. -/
theorem acquaint_same (same : ∀ id, rule.choiceAdded table id = (false, rule)) :
    acquaint table rule = rule := by
  unfold acquaint
  induction table.ids with
  | nil => rfl
  | cons id rest ih => rw [List.foldl_cons, same, ih]

/-! ### The kinds of rules -/

theorem acquaint_optionalSet (table : ChoiceTable) (modId : String) :
    acquaint table (.optionalSet modId []) =
      .optionalSet modId (table.ids.filter fun id => table.modId? id == some modId) := by
  simp only [← ChoiceTable.shows_ofMod]
  exact acquaint_blank table rfl

theorem acquaint_overriddenSet (table : ChoiceTable) (modId : String) (winner : ChoiceId) :
    acquaint table (.overriddenSet modId winner []) =
      .overriddenSet modId winner (table.ids.filter fun id =>
        decide (table.root id ≠ winner ∧ table.modId? id = some modId)) := by
  simp only [← ChoiceTable.shows_rivals]
  exact acquaint_blank table rfl

theorem acquaint_dependsOnly (table : ChoiceTable) (source : ChoiceId) (link : Link)
    (exception : Option ChoiceId) :
    acquaint table (.dependsOnly source link exception [] []) =
      .dependsOnly source link exception
        (table.ids.filter fun id => link.accepts? table id == some true)
        (table.ids.filter fun id => link.accepts? table id == some false) := by
  simp only [← ChoiceTable.shows_matching]
  exact acquaint_blank table ⟨rfl, rfl⟩

theorem acquaint_breaksOnly (table : ChoiceTable) (source : ChoiceId) (link : Link)
    (exception : Option ChoiceId) (role : BreakRole) :
    acquaint table (.breaksOnly source link exception role []) =
      .breaksOnly source link exception role
        (table.ids.filter fun id => link.accepts? table id == some true) := by
  simp only [← ChoiceTable.shows_matching]
  exact acquaint_blank table rfl

end Engine

end Loadout
