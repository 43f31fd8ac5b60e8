/-
**Dependencies ask for what they mean.**

A dependency becomes a tree of rules in which alternatives and exceptions are the sources of rules
of their own, each with a branch of its own. The rules constrain a branch in one direction only, so
what is offered (`ChoiceTable.offers`) says which values suit it (`ChoiceTable.Fills`):

* `makes_single`, `makes_composite`: a link asks for what its rule says, if its parts and its
  exception do;
* **`addDependency_makes`**: whatever the nesting, a dependency asks that it holds where its source
  is loaded.
-/

import Loadout.Proofs.Resolver.Builds

namespace Loadout

namespace Rule

variable {base table : ChoiceTable} {value : ChoiceId → Bool}

/-! ### What rules about one mod id say -/

/-- A link accepts a loaded choice when it accepts something that is offered. -/
theorem exists_accepted (extends' : base.Extends table) (grounded : base.Grounded) (link : Link)
    (accepted : Bool) :
    (∃ id ∈ table.ids.filter fun id => link.accepts? table id == some accepted,
      table.loads value id = true) ↔
    ∃ offer ∈ base.offers value,
      offer.modId = link.modId ∧ link.versions.accepts offer.version = accepted := by
  simp only [List.mem_filter, beq_iff_eq, ChoiceTable.accepts?_iff]
  constructor
  · rintro ⟨id, ⟨_, offer, offered, modId, version⟩, loaded⟩
    exact ⟨offer, (extends'.mem_offers grounded).mpr ⟨id, loaded, offered⟩, modId, version⟩
  · rintro ⟨offer, inside, modId, version⟩
    obtain ⟨id, loaded, offered⟩ := (extends'.mem_offers grounded).mp inside
    have registered := ChoiceTable.mem_ids_iff.mpr (ChoiceTable.contains_of_offer? offered)
    exact ⟨id, ⟨registered, offer, offered, modId, version⟩, loaded⟩

theorem says_dependsOnly (extends' : base.Extends table) (grounded : base.Grounded)
    (source : ChoiceId) (link : Link) (exception : Option ChoiceId) :
    (Engine.acquaint table (.dependsOnly source link exception [] [])).Says table value ↔
      (table.loads value source = true →
        (if link.optional then !(base.offers value).any (Offer.misses link.modId link.versions)
          else (base.offers value).any (Offer.meets link.modId link.versions)) = true ∨
        Excused table value exception) := by
  rw [Engine.acquaint_dependsOnly]
  unfold Says
  refine imp_congr_right fun _ => or_congr_left ?_
  cases link.optional with
  | false =>
    simp only [Bool.false_eq_true, if_false]
    rw [Offer.any_meets, ← exists_accepted extends' grounded]
  | true =>
    simp only [if_true, Bool.not_eq_true']
    rw [← Bool.not_eq_true, Offer.any_misses, ← exists_accepted extends' grounded]
    push Not
    exact forall₂_congr fun id _ => Bool.not_eq_true _ ▸ Iff.rfl

theorem says_breaksOnly (extends' : base.Extends table) (grounded : base.Grounded)
    (source : ChoiceId) (link : Link) (exception : Option ChoiceId) (role : BreakRole) :
    (Engine.acquaint table (.breaksOnly source link exception role [])).Says table value ↔
      ((base.offers value).any (Offer.meets link.modId link.versions) = true →
        Excused table value exception ∨ Clash table value source role) := by
  rw [Engine.acquaint_breaksOnly, Offer.any_meets, ← exists_accepted extends' grounded]
  unfold Says
  exact ⟨fun forbids ⟨id, inside, loaded⟩ => forbids id inside loaded,
    fun forbids id inside loaded => forbids ⟨id, inside, loaded⟩⟩

end Rule

namespace ChoiceTable

variable {base early table : ChoiceTable} {value : ChoiceId → Bool}

/-! ### Values of new branches -/

/-- The values with some more from a number on. -/
def fill (value : ChoiceId → Bool) (start : Nat) (bits : List Bool) : ChoiceId → Bool := fun id =>
  if id < start then value id else bits.getD (id - start) false

theorem agree_fill (value : ChoiceId → Bool) (start : Nat) (bits : List Bool) :
    AgreeBelow start value (fill value start bits) :=
  fun _ inside => (if_pos inside).symm

/-- A new branch is loaded when its value says so. -/
theorem Extends.loads_fill (extends' : early.Extends table) (grounded : early.Grounded)
    {id : ChoiceId} (beyond : early.entries.size ≤ id) (inside : id < table.entries.size)
    (bits : List Bool) :
    table.loads (fill value early.entries.size bits) id =
      bits.getD (id - early.entries.size) false := by
  have final : early.target? id = none := by
    cases found : early.target? id with
    | none => rfl
    | some target => exact absurd (lt_of_target? found) (Nat.not_lt.mpr beyond)
  unfold ChoiceTable.loads
  rw [extends'.root grounded, root_of_final final, extends'.contains_branch beyond inside,
    Bool.true_and]
  exact if_neg (Nat.not_lt.mpr beyond)

/-- The choices that were there keep their values. -/
theorem Extends.loads_fill_of_lt (extends' : early.Extends table) (grounded : early.Grounded)
    {id : ChoiceId} (inside : id < early.entries.size) (bits : List Bool) :
    table.loads (fill value early.entries.size bits) id = early.loads value id := by
  rw [extends'.loads grounded inside, ChoiceTable.loads_congr (agree_fill value _ bits)]

theorem Extends.offers_fill (extends' : base.Extends early) (bits : List Bool) :
    base.offers (fill value early.entries.size bits) = base.offers value :=
  (ChoiceTable.offers_congr ((agree_fill value _ bits).mono extends'.size_le)).symm

/-- Values with which new branches suit what is asked of them: those for parts come one after the
other, and the one for an exception, if there is one, comes last and says whether it holds. -/
structure Fills (base early table : ChoiceTable) (value other : ChoiceId → Bool)
    (parts : List Bool) (exception : Option Dependency) : Prop where
  agree : AgreeBelow early.entries.size value other
  offers : base.offers other = base.offers value
  loads : ∀ id, id < early.entries.size → table.loads other id = early.loads value id
  bits : ∀ place bit, parts[place]? = some bit →
    table.loads other (early.entries.size + place) = bit
  excused : Rule.Excused table other
      (exception.map fun _ => early.entries.size + parts.length) ↔
    Dependency.exceptionHolds (base.offers value) exception = true

/-- The branch for a part is loaded just when the part passes. -/
theorem Fills.loads_item {α : Type} {test : α → Bool} {parts : List α} {other : ChoiceId → Bool}
    {exception : Option Dependency}
    (fills : Fills base early table value other (parts.map test) exception) {place : Nat} {part : α}
    (found : parts[place]? = some part) :
    table.loads other (early.entries.size + place) = test part :=
  fills.bits place _ (by rw [List.getElem?_map, found]; rfl)

/-- **New branches may have any values.** -/
theorem Extends.exists_fills (older : base.Extends early) (extends' : early.Extends table)
    (grounded : base.Grounded) (value : ChoiceId → Bool) (parts : List Bool)
    (exception : Option Dependency)
    (size : table.entries.size = early.entries.size + parts.length + exception.toList.length) :
    ∃ other, Fills base early table value other parts exception := by
  have grounded' := older.grounded grounded
  have bit : ∀ bits place bit, bits[place]? = some bit →
      early.entries.size + place < table.entries.size →
        table.loads (fill value early.entries.size bits) (early.entries.size + place) = bit := by
    intro bits place bit found within
    rw [extends'.loads_fill grounded' (Nat.le_add_right _ place) within, Nat.add_sub_cancel_left,
      List.getD_eq_getElem?_getD, found]
    rfl
  refine ⟨fill value early.entries.size
    (parts ++ exception.toList.map (Dependency.holds (base.offers value))),
    agree_fill value _ _, older.offers_fill _,
    fun id inside => extends'.loads_fill_of_lt grounded' inside _, fun place part found => ?_, ?_⟩
  · have within := (List.getElem?_eq_some_iff.mp found).1
    refine bit _ place part ?_ (by omega)
    rw [List.getElem?_append_left within, found]
  · unfold Rule.Excused
    cases exception with
    | none => simp [Dependency.exceptionHolds]
    | some exception =>
      have last := bit (parts ++ [exception.holds (base.offers value)]) parts.length _
        List.getElem?_concat_length (by rw [size]; exact Nat.lt_succ_self _)
      simp only [Option.map_some, Option.some.injEq, exists_eq_left', Option.toList_some,
        List.map_cons, List.map_nil, last]
      exact Iff.rfl

end ChoiceTable

/-! ### Dependencies -/

namespace Dependency

variable {base table later : ChoiceTable} {value : ChoiceId → Bool}

/-- The dependency holds where its source is loaded. -/
def Met (base table : ChoiceTable) (source : ChoiceId) (dependency : Dependency) : ChoiceDemand :=
  fun value => table.loads value source = true → dependency.holds (base.offers value) = true

/-- The exception holds where its branch is loaded. -/
def Backed (base table : ChoiceTable) (branch : Option ChoiceId) (exception : Option Dependency) :
    ChoiceDemand :=
  fun value => Rule.Excused table value branch →
    Dependency.exceptionHolds (base.offers value) exception = true

/-- Dependencies hold where their branches are loaded. -/
def AllMet (base table : ChoiceTable) (branches : List ChoiceId) (dependencies : List Dependency) :
    ChoiceDemand :=
  fun value => ∀ pair ∈ branches.zip dependencies, pair.2.Met base table pair.1 value

theorem someHolds_iff {offers : List Offer} {dependencies : List Dependency} :
    someHolds offers dependencies = true ↔
      ∃ dependency ∈ dependencies, dependency.holds offers = true := by
  induction dependencies with
  | nil => simp [someHolds]
  | cons first rest ih => simp [someHolds, ih]

theorem below_met (extends' : base.Extends table) (source : ChoiceId) (dependency : Dependency) :
    ChoiceDemand.Below table.entries.size (dependency.Met base table source) := by
  intro value other agree meets loaded
  rw [← ChoiceTable.offers_congr (agree.mono extends'.size_le)]
  exact meets (by rwa [ChoiceTable.loads_congr agree])

theorem excused_congr {other : ChoiceId → Bool}
    (agree : ChoiceTable.AgreeBelow table.entries.size value other) (branch : Option ChoiceId) :
    Rule.Excused table value branch ↔ Rule.Excused table other branch := by
  unfold Rule.Excused
  exact exists_congr fun id => by rw [ChoiceTable.loads_congr agree]

theorem below_backed (extends' : base.Extends table) (branch : Option ChoiceId)
    (exception : Option Dependency) :
    ChoiceDemand.Below table.entries.size (Backed base table branch exception) := by
  intro value other agree meets excused
  rw [← ChoiceTable.offers_congr (agree.mono extends'.size_le)]
  exact meets ((excused_congr agree branch).mpr excused)

theorem below_allMet (extends' : base.Extends table) (branches : List ChoiceId)
    (dependencies : List Dependency) :
    ChoiceDemand.Below table.entries.size (AllMet base table branches dependencies) :=
  fun value other agree meets pair inside =>
    below_met extends' pair.1 pair.2 value other agree (meets pair inside)

theorem met_later (extends' : table.Extends later) (grounded : table.Grounded) {source : ChoiceId}
    (inside : source < table.entries.size) (dependency : Dependency) :
    dependency.Met base later source value ↔ dependency.Met base table source value := by
  unfold Met
  rw [extends'.loads grounded inside]

theorem backed_later (extends' : table.Extends later) (grounded : table.Grounded)
    {branch : Option ChoiceId} (inside : ∀ id, branch = some id → id < table.entries.size)
    (exception : Option Dependency) :
    Backed base later branch exception value ↔ Backed base table branch exception value := by
  have same : Rule.Excused later value branch ↔ Rule.Excused table value branch :=
    exists_congr fun id => and_congr_right fun found => by
      rw [extends'.loads grounded (inside id found)]
  unfold Backed
  rw [same]

theorem allMet_later (extends' : table.Extends later) (grounded : table.Grounded)
    {branches : List ChoiceId} (inside : ∀ branch ∈ branches, branch < table.entries.size)
    (dependencies : List Dependency) :
    AllMet base later branches dependencies value ↔
      AllMet base table branches dependencies value :=
  forall₂_congr fun pair member =>
    met_later extends' grounded (inside pair.1 (List.of_mem_zip member).1) pair.2

end Dependency

namespace Resolver

open Engine

variable {config : Config} {base table : ChoiceTable} {forest : Forest} {demand : ChoiceDemand}
  {source : ChoiceId} {parent : Option RuleId} {exception : Option Dependency}

/-! ### Links with an exception -/

/-- The rules of an exception make it hold where its branch is loaded. -/
def ExceptionMakes (config : Config) (base : ChoiceTable) (exception : Option Dependency) : Prop :=
  ∀ (table : ChoiceTable) (forest : Forest) (branch : Option ChoiceId) (parent : RuleId),
    base.Extends table → forest.contains parent = true →
    (∀ id, branch = some id → id < table.entries.size) →
    (exception = none → branch = none) →
    Makes config (addExceptionRules branch parent exception) table forest
      (Dependency.Backed base table branch exception)

theorem exception_within {start count : Nat} (size : count = start + exception.toList.length) :
    ∀ id, (exception.map fun _ => start) = some id → id < count := by
  intro id found
  cases exception with
  | none => cases found
  | some exception =>
    cases found
    rw [size]
    exact Nat.lt_succ_self _

/-- A link to one mod id makes what its rule says, if its exception does. -/
theorem makes_single (extends' : base.Extends table) (grounded : base.Grounded)
    (known : ∀ id, parent = some id → forest.contains id = true)
    (backed : ExceptionMakes config base exception) (rule : Option ChoiceId → Rule)
    (sound : ∀ branched value, table.Extends branched →
      (acquaint branched (rule (exception.map fun _ => table.entries.size))).Says branched value →
      Dependency.Backed base branched (exception.map fun _ => table.entries.size) exception value →
      demand value)
    (complete : ∀ branched value other, table.Extends branched →
      ChoiceTable.Fills base table branched value other [] exception → demand value →
      (acquaint branched (rule (exception.map fun _ => table.entries.size))).Says branched other) :
    Makes config (do
      let branch ← addException source exception
      let id ← addRule (rule branch) parent
      addExceptionRules branch id exception) table forest demand := by
  have grounded' := extends'.grounded grounded
  obtain ⟨branched, given, further, size⟩ := gives_addException config table forest source exception
  have older := extends'.trans further
  obtain ⟨id, forest', given', registered, asks⟩ := gives_addRule config (older.grounded grounded)
    (rule (exception.map fun _ => table.entries.size)) parent known
  obtain ⟨last, forest'', given'', builds⟩ := backed branched forest'
    (exception.map fun _ => table.entries.size) id older registered
    (exception_within size) (fun none => by rw [none]; rfl)
  refine ⟨last, forest'', given.bind (given'.bind given''),
    (asks.trans builds (Dependency.below_backed older _ _)).behind further
      (fun value meets => sound branched value further meets.1 meets.2) fun value meets => ?_⟩
  obtain ⟨other, fills⟩ := extends'.exists_fills further grounded value [] exception size
  refine ⟨other, fills.agree, complete branched value other further fills meets, ?_⟩
  unfold Dependency.Backed
  rw [fills.offers]
  exact fills.excused.mp

/-- A composite link makes what its rule says, if its parts and its exception do. -/
theorem makes_composite (extends' : base.Extends table) (grounded : base.Grounded)
    (known : ∀ id, parent = some id → forest.contains id = true)
    (backed : ExceptionMakes config base exception) (noun : String) (count : Nat)
    (rule : List ChoiceId → Option ChoiceId → Rule)
    (unaware : ∀ branched branches branch id,
      (rule branches branch).choiceAdded branched id = (false, rule branches branch))
    (parts : RuleId → List ChoiceId → Action Unit) (asked : ChoiceTable → ChoiceDemand)
    (made : ∀ later forest' id, base.Extends later →
      forest'.contains id = true →
      (∀ branch ∈ List.range' table.entries.size count, branch < later.entries.size) →
      Makes config (parts id (List.range' table.entries.size count)) later forest' (asked later))
    (below : ∀ later, base.Extends later → (asked later).Below later.entries.size)
    (sound : ∀ branched value, table.Extends branched →
      (rule (List.range' table.entries.size count)
        (exception.map fun _ => table.entries.size + count)).Says branched value →
      asked branched value →
      Dependency.Backed base branched (exception.map fun _ => table.entries.size + count) exception
        value → demand value)
    (bits : List Offer → List Bool) (length : ∀ offers, (bits offers).length = count)
    (complete : ∀ branched value other, table.Extends branched →
      ChoiceTable.Fills base table branched value other (bits (base.offers value)) exception →
      demand value →
      (rule (List.range' table.entries.size count)
        (exception.map fun _ => table.entries.size + count)).Says branched other ∧
      asked branched other) :
    Makes config (do
      let branches ← addBranches source noun count
      let branch ← addException source exception
      let id ← addRule (rule branches branch) parent
      parts id branches
      addExceptionRules branch id exception) table forest demand := by
  have grounded' := extends'.grounded grounded
  obtain ⟨parted, given, first, size⟩ := gives_addBranches config table forest source
    (fun place => s!"{noun} {place + 1}") (List.range count)
  obtain ⟨branched, given', second, size'⟩ :=
    gives_addException config parted forest source exception
  rw [List.length_range] at given size
  rw [size] at given' size'
  have further := first.trans second
  have older := extends'.trans further
  obtain ⟨id, forest', added, registered, asks⟩ := gives_addRule config (older.grounded grounded)
    (rule (List.range' table.entries.size count)
      (exception.map fun _ => table.entries.size + count)) parent known
  have asks := asks.congr fun value => by rw [acquaint_same (unaware branched _ _)]
  have within := exception_within size'
  have places : ∀ branch ∈ List.range' table.entries.size count,
      branch < branched.entries.size := by
    intro branch member
    have bound := (List.mem_range'_1.mp member).2
    omega
  obtain ⟨last, forest'', given'', builds⟩ :=
    (made branched forest' id older registered places).bind
      (fun later forest'' further' kept =>
        (backed later forest'' (exception.map fun _ => table.entries.size + count) id
          (older.trans further') (kept id registered)
          (fun id found => (within id found).trans_le further'.size_le)
          (fun none => by rw [none]; rfl)).congr fun value =>
            Dependency.backed_later further' (older.grounded grounded) within exception)
      (Dependency.below_backed older _ _)
  refine ⟨last, forest'', given.bind (given'.bind (added.bind given'')),
    (asks.trans builds ((below branched older).and (Dependency.below_backed older _ _))).behind
      further
      (fun value meets => sound branched value further meets.1 meets.2.1 meets.2.2)
      fun value meets => ?_⟩
  obtain ⟨other, fills⟩ := extends'.exists_fills further grounded value (bits (base.offers value))
    exception (by rw [length]; exact size')
  obtain ⟨meets', meets''⟩ := complete branched value other further fills meets
  refine ⟨other, fills.agree, meets', meets'', ?_⟩
  have excused := fills.excused
  rw [length] at excused
  unfold Dependency.Backed
  rw [fills.offers]
  exact excused.mp

/-! ### Dependencies as rules -/

/-- The rules of alternatives make them hold where their branches are loaded. -/
def AlternativesMake (config : Config) (base : ChoiceTable) (alternatives : List Dependency) :
    Prop :=
  ∀ (table : ChoiceTable) (forest : Forest) (branches : List ChoiceId) (parent : RuleId),
    base.Extends table → forest.contains parent = true →
    (∀ branch ∈ branches, branch < table.entries.size) →
    Makes config (addAlternatives parent branches alternatives) table forest
      (Dependency.AllMet base table branches alternatives)

theorem mem_zip_range' {α : Type} {start : Nat} {list : List α} {pair : Nat × α} :
    pair ∈ (List.range' start list.length).zip list ↔
      ∃ place, list[place]? = some pair.2 ∧ pair.1 = start + place := by
  rw [List.mem_iff_getElem?]
  refine exists_congr fun place => ?_
  rw [List.getElem?_zip_eq_some]
  constructor
  · rintro ⟨branch, item⟩
    obtain ⟨_, equal⟩ := List.getElem?_eq_some_iff.mp branch
    exact ⟨item, by rw [← equal, List.getElem_range', Nat.one_mul]⟩
  · rintro ⟨item, branch⟩
    have within := (List.getElem?_eq_some_iff.mp item).1
    exact ⟨by rw [List.getElem?_range' within, branch, Nat.one_mul], item⟩

/-- A dependency on one mod id makes what it means, if its exception does. -/
theorem makes_dependsOnly (extends' : base.Extends table) (grounded : base.Grounded)
    (inside : source < table.entries.size)
    (known : ∀ id, parent = some id → forest.contains id = true)
    (modId : String) (versions : Constraint) (optional : Bool)
    (backed : ExceptionMakes config base exception) :
    Makes config (addDependency source parent (.only modId versions optional exception)) table
      forest (Dependency.Met base table source (.only modId versions optional exception)) := by
  unfold addDependency
  refine makes_single extends' grounded known backed
    (fun branch => .dependsOnly source ⟨modId, versions, optional⟩ branch [] []) ?_ ?_
  · intro branched value further meets backs loaded
    rw [Rule.says_dependsOnly (extends'.trans further) grounded] at meets
    unfold Dependency.holds
    rw [Bool.or_eq_true]
    exact (meets (by rwa [further.loads (extends'.grounded grounded) inside])).imp_right backs
  · intro branched value other further fills meets
    rw [Rule.says_dependsOnly (extends'.trans further) grounded, fills.loads source inside,
      fills.offers]
    intro loaded
    have holds := meets loaded
    unfold Dependency.holds at holds
    rw [Bool.or_eq_true] at holds
    exact holds.imp_right fills.excused.mpr

/-- A choice between alternatives makes what it means, if the alternatives and the exception do. -/
theorem makes_dependsAny (extends' : base.Extends table) (grounded : base.Grounded)
    (inside : source < table.entries.size)
    (known : ∀ id, parent = some id → forest.contains id = true) {alternatives : List Dependency}
    (alternated : AlternativesMake config base alternatives)
    (backed : ExceptionMakes config base exception) :
    Makes config (addDependency source parent (.any alternatives exception)) table forest
      (Dependency.Met base table source (.any alternatives exception)) := by
  unfold addDependency
  refine makes_composite extends' grounded known backed "alternative" alternatives.length
    (fun branches branch => .dependsAny source branches branch) (fun _ _ _ _ => rfl)
    (fun id branches => addAlternatives id branches alternatives)
    (fun later => Dependency.AllMet base later _ alternatives)
    (fun later forest' => alternated later forest' _)
    (fun later older => Dependency.below_allMet older _ alternatives) ?_
    (fun offers => alternatives.map (Dependency.holds offers)) (fun _ => List.length_map _) ?_
  · intro branched value further meets holds backs loaded
    unfold Dependency.holds
    rw [Bool.or_eq_true, Dependency.someHolds_iff]
    refine (meets (by rwa [further.loads (extends'.grounded grounded) inside])).imp ?_ backs
    rintro ⟨branch, member, chosen⟩
    obtain ⟨place, bound, rfl⟩ := List.mem_range'.mp member
    rw [Nat.one_mul] at chosen
    exact ⟨alternatives[place], List.getElem_mem bound, holds (table.entries.size + place, _)
      (mem_zip_range'.mpr ⟨place, List.getElem?_eq_getElem bound, rfl⟩) chosen⟩
  · intro branched value other further fills meets
    have excused := fills.excused
    rw [List.length_map] at excused
    constructor
    · intro loaded
      rw [fills.loads source inside] at loaded
      have holds := meets loaded
      unfold Dependency.holds at holds
      rw [Bool.or_eq_true, Dependency.someHolds_iff] at holds
      refine holds.imp ?_ excused.mpr
      rintro ⟨alternative, member, holds'⟩
      obtain ⟨place, bound, rfl⟩ := List.getElem_of_mem member
      refine ⟨table.entries.size + place, List.mem_range'_1.mpr ⟨by omega, by omega⟩, ?_⟩
      rw [fills.loads_item (List.getElem?_eq_getElem bound)]
      exact holds'
    · rintro ⟨branch, alternative⟩ member loaded
      obtain ⟨place, found, rfl⟩ := mem_zip_range'.mp member
      rw [fills.loads_item found] at loaded
      rw [fills.offers]
      exact loaded

mutual

/-- **A dependency asks that it holds where its source is loaded.** -/
theorem addDependency_makes (config : Config) {base : ChoiceTable} (grounded : base.Grounded) :
    ∀ (dependency : Dependency) {table : ChoiceTable} {forest : Forest} (source : ChoiceId)
      (parent : Option RuleId), base.Extends table →
      source < table.entries.size → (∀ id, parent = some id → forest.contains id = true) →
      Makes config (addDependency source parent dependency) table forest
        (dependency.Met base table source)
  | .only modId versions optional exception, _, _, _, _, extends', inside, known =>
    makes_dependsOnly extends' grounded inside known modId versions optional
      (exception_makes config grounded exception)
  | .any alternatives exception, _, _, _, _, extends', inside, known =>
    makes_dependsAny extends' grounded inside known
      (alternatives_make config grounded alternatives) (exception_makes config grounded exception)

theorem exception_makes (config : Config) {base : ChoiceTable} (grounded : base.Grounded) :
    ∀ exception : Option Dependency, ExceptionMakes config base exception
  | none, table, _, _, _, _, _, _, absent => by
    refine (makes_pure config _ _).congr fun value => ?_
    rw [absent rfl]
    simp [Dependency.Backed, Rule.Excused]
  | some _, _, _, none, _, _, _, _, _ => by
    refine (makes_pure config _ _).congr fun value => ?_
    simp [Dependency.Backed, Rule.Excused]
  | some exception, _, _, some branch, parent, extends', registered, within, _ => by
    have makes := addDependency_makes config grounded exception branch (some parent) extends'
      (within branch rfl) fun id equal => by cases equal; exact registered
    refine Makes.congr makes fun value => ?_
    simp [Dependency.Met, Dependency.Backed, Rule.Excused, Dependency.exceptionHolds]

theorem alternatives_make (config : Config) {base : ChoiceTable} (grounded : base.Grounded) :
    ∀ alternatives : List Dependency, AlternativesMake config base alternatives
  | [], _, _, branches, _, _, _, _ => by
    refine (makes_pure config _ _).congr fun value => ?_
    simp [Dependency.AllMet]
  | _ :: _, _, _, [], _, _, _, _ => by
    refine (makes_pure config _ _).congr fun value => ?_
    simp [Dependency.AllMet]
  | alternative :: rest, table, forest, branch :: branches, parent, extends', registered,
      within => by
    have grounded' := extends'.grounded grounded
    have within' : ∀ branch ∈ branches, branch < table.entries.size :=
      fun other member => within other (List.mem_cons_of_mem _ member)
    have first := addDependency_makes config grounded alternative branch (some parent) extends'
      (within branch List.mem_cons_self) fun id equal => by cases equal; exact registered
    refine (first.bind (fun later forest' further kept =>
      (alternatives_make config grounded rest later forest' branches parent (extends'.trans further)
        (kept parent registered)
        fun other member => (within' other member).trans_le further.size_le).congr fun value =>
          Dependency.allMet_later further grounded' within' rest)
      (Dependency.below_allMet extends' branches rest)).congr fun value => ?_
    simp [Dependency.AllMet]

end

/-- The dependencies of a source ask that they hold where it is loaded. -/
theorem dependencies_make (config : Config) (extends' : base.Extends table)
    (grounded : base.Grounded) (inside : source < table.entries.size)
    (dependencies : List Dependency) :
    Makes config (dependencies.forM (addDependency source none)) table forest fun value =>
      ∀ dependency ∈ dependencies, dependency.Met base table source value :=
  makes_forM (fun dependency _ _ _ further =>
    (addDependency_makes config grounded dependency source none (extends'.trans further)
      (inside.trans_le further.size_le) nofun).congr fun _ =>
        Dependency.met_later further (extends'.grounded grounded) inside dependency)
    fun dependency _ => Dependency.below_met extends' source dependency

end Resolver

end Loadout
