/-
**Breakages ask for what they mean.**

The rules of a part of a combination constrain its branch the other way round than those of an
alternative do: the branch is loaded where the part is active.

* **`addBreakage_makes`**: whatever the nesting, a breakage on its own asks that it is not active
  where its source is loaded, and a part of a combination that its branch is loaded where the part
  is active;
* **`links_keep_meaning`**: values can be extended to the branches of a dependency or a breakage so
  that its rules hold just when its source is not loaded, or the dependency holds, or the breakage
  is not active.
-/

import Loadout.Proofs.Resolver.Links

namespace Loadout

namespace Breakage

variable {base table later : ChoiceTable} {value : ChoiceId → Bool}

/-- Where the breakage is active, its source is not loaded, or is loaded if it stands for a part. -/
def Heeded (base table : ChoiceTable) (source : ChoiceId) (role : BreakRole) (breakage : Breakage) :
    ChoiceDemand :=
  fun value => breakage.isActive (base.offers value) = true → Rule.Clash table value source role

/-- Branches are loaded where their parts are active. -/
def AllHeeded (base table : ChoiceTable) (branches : List ChoiceId) (parts : List Breakage) :
    ChoiceDemand :=
  fun value => ∀ pair ∈ branches.zip parts, pair.2.Heeded base table pair.1 .part value

theorem allActive_iff {offers : List Offer} {parts : List Breakage} :
    allActive offers parts = true ↔ ∀ part ∈ parts, part.isActive offers = true := by
  induction parts with
  | nil => simp [allActive]
  | cons first rest ih => simp [allActive, ih]

theorem clash_congr {source : ChoiceId} {other : ChoiceId → Bool}
    (same : later.loads other source = table.loads value source) (role : BreakRole) :
    Rule.Clash later other source role ↔ Rule.Clash table value source role := by
  unfold Rule.Clash
  rw [same]

theorem below_heeded (extends' : base.Extends table) (source : ChoiceId) (role : BreakRole)
    (breakage : Breakage) :
    ChoiceDemand.Below table.entries.size (breakage.Heeded base table source role) := by
  intro value other agree meets active
  rw [← ChoiceTable.offers_congr (agree.mono extends'.size_le)] at active
  exact (clash_congr (ChoiceTable.loads_congr agree source) role).mp (meets active)

theorem below_allHeeded (extends' : base.Extends table) (branches : List ChoiceId)
    (parts : List Breakage) :
    ChoiceDemand.Below table.entries.size (AllHeeded base table branches parts) :=
  fun value other agree meets pair inside =>
    below_heeded extends' pair.1 .part pair.2 value other agree (meets pair inside)

theorem heeded_later (extends' : table.Extends later) (grounded : table.Grounded)
    {source : ChoiceId} (inside : source < table.entries.size) (role : BreakRole)
    (breakage : Breakage) :
    breakage.Heeded base later source role value ↔ breakage.Heeded base table source role value :=
  imp_congr_right fun _ => clash_congr (extends'.loads grounded inside) role

theorem allHeeded_later (extends' : table.Extends later) (grounded : table.Grounded)
    {branches : List ChoiceId} (inside : ∀ branch ∈ branches, branch < table.entries.size)
    (parts : List Breakage) :
    AllHeeded base later branches parts value ↔ AllHeeded base table branches parts value :=
  forall₂_congr fun pair member =>
    heeded_later extends' grounded (inside pair.1 (List.of_mem_zip member).1) .part pair.2

end Breakage

namespace Resolver

open Engine

variable {config : Config} {base table : ChoiceTable} {forest : Forest} {source : ChoiceId}
  {role : BreakRole} {parent : Option RuleId} {exception : Option Dependency}

/-- The rules of parts make their branches loaded where they are active. -/
def PartsMake (config : Config) (base : ChoiceTable) (parts : List Breakage) : Prop :=
  ∀ (table : ChoiceTable) (forest : Forest) (branches : List ChoiceId) (parent : RuleId),
    base.Extends table → forest.contains parent = true →
    (∀ branch ∈ branches, branch < table.entries.size) →
    Makes config (addParts parent branches parts) table forest
      (Breakage.AllHeeded base table branches parts)

/-- A breakage of one mod id makes what it means, if its exception does. -/
theorem makes_breaksOnly (extends' : base.Extends table) (grounded : base.Grounded)
    (inside : source < table.entries.size)
    (known : ∀ id, parent = some id → forest.contains id = true)
    (modId : String) (versions : Constraint) (optional : Bool)
    (backed : ExceptionMakes config base exception) :
    Makes config (addBreakage source role parent (.only modId versions optional exception)) table
      forest
      (Breakage.Heeded base table source role (.only modId versions optional exception)) := by
  unfold addBreakage
  refine makes_single extends' grounded known backed
    (fun branch => .breaksOnly source ⟨modId, versions, false⟩ branch role []) ?_ ?_
  · intro branched value further meets backs active
    rw [Rule.says_breaksOnly (extends'.trans further) grounded] at meets
    unfold Breakage.isActive at active
    rw [Bool.and_eq_true, Bool.not_eq_true'] at active
    rcases meets active.1 with excused | clash
    · exact absurd (backs excused) (by rw [active.2]; exact Bool.false_ne_true)
    · exact (Breakage.clash_congr (further.loads (extends'.grounded grounded) inside) role).mp clash
  · intro branched value other further fills meets
    rw [Rule.says_breaksOnly (extends'.trans further) grounded, fills.offers]
    intro matching
    refine Or.imp fills.excused.mpr (Breakage.clash_congr (fills.loads source inside) role).mpr ?_
    refine Decidable.or_iff_not_imp_left.mpr fun unexcused => meets ?_
    unfold Breakage.isActive
    rw [Bool.and_eq_true, Bool.not_eq_true']
    exact ⟨matching, Bool.eq_false_iff.mpr unexcused⟩

/-- The breakage of a combination makes what it means, if its parts and its exception do. -/
theorem makes_breaksAll (extends' : base.Extends table) (grounded : base.Grounded)
    (inside : source < table.entries.size)
    (known : ∀ id, parent = some id → forest.contains id = true) {parts : List Breakage}
    (combined : PartsMake config base parts) (backed : ExceptionMakes config base exception) :
    Makes config (addBreakage source role parent (.all parts exception)) table forest
      (Breakage.Heeded base table source role (.all parts exception)) := by
  unfold addBreakage
  refine makes_composite extends' grounded known backed "part" parts.length
    (fun branches branch => .breaksAll source branches branch role) (fun _ _ _ _ => rfl)
    (fun id branches => addParts id branches parts)
    (fun later => Breakage.AllHeeded base later _ parts)
    (fun later forest' => combined later forest' _)
    (fun later older => Breakage.below_allHeeded older _ parts) ?_
    (fun offers => parts.map (Breakage.isActive offers)) (fun _ => List.length_map _) ?_
  · intro branched value further meets shows' backs active
    unfold Breakage.isActive at active
    rw [Bool.and_eq_true, Bool.and_eq_true, Bool.not_eq_true', Bool.not_eq_true',
      Breakage.allActive_iff] at active
    obtain ⟨⟨nonempty, all⟩, unexcused⟩ := active
    have some : List.range' table.entries.size parts.length ≠ [] := by
      rw [ne_eq, List.range'_eq_nil_iff, List.length_eq_zero_iff]
      rintro rfl
      cases nonempty
    have loaded : ∀ branch ∈ List.range' table.entries.size parts.length,
        branched.loads value branch = true := by
      intro branch member
      obtain ⟨place, bound, rfl⟩ := List.mem_range'.mp member
      rw [Nat.one_mul]
      exact shows' (table.entries.size + place, _)
        (mem_zip_range'.mpr ⟨place, List.getElem?_eq_getElem bound, rfl⟩)
        (all _ (List.getElem_mem bound))
    rcases meets some loaded with excused | clash
    · exact absurd (backs excused) (by rw [unexcused]; exact Bool.false_ne_true)
    · exact (Breakage.clash_congr (further.loads (extends'.grounded grounded) inside) role).mp clash
  · intro branched value other further fills meets
    have excused := fills.excused
    rw [List.length_map] at excused
    constructor
    · intro some loaded
      refine Or.imp excused.mpr (Breakage.clash_congr (fills.loads source inside) role).mpr ?_
      refine Decidable.or_iff_not_imp_left.mpr fun unexcused => meets ?_
      unfold Breakage.isActive
      rw [Bool.and_eq_true, Bool.and_eq_true, Bool.not_eq_true', Bool.not_eq_true',
        Breakage.allActive_iff]
      refine ⟨⟨Bool.eq_false_iff.mpr fun empty => some ?_, fun part member => ?_⟩,
        Bool.eq_false_iff.mpr unexcused⟩
      · rw [List.isEmpty_iff.mp empty]
        rfl
      · obtain ⟨place, bound, rfl⟩ := List.getElem_of_mem member
        rw [← fills.loads_item (List.getElem?_eq_getElem bound)]
        exact loaded _ (List.mem_range'_1.mpr ⟨by omega, by omega⟩)
    · rintro ⟨branch, part⟩ member active
      obtain ⟨place, found, rfl⟩ := mem_zip_range'.mp member
      rw [fills.offers] at active
      show branched.loads other (table.entries.size + place) = true
      rw [fills.loads_item found]
      exact active

mutual

/-- **A breakage asks that its source is not loaded where it is active**, and one that is a part
that its branch is. -/
theorem addBreakage_makes (config : Config) {base : ChoiceTable} (grounded : base.Grounded) :
    ∀ (breakage : Breakage) {table : ChoiceTable} {forest : Forest} (source : ChoiceId)
      (role : BreakRole) (parent : Option RuleId), base.Extends table →
      source < table.entries.size → (∀ id, parent = some id → forest.contains id = true) →
      Makes config (addBreakage source role parent breakage) table forest
        (breakage.Heeded base table source role)
  | .only modId versions optional exception, _, _, _, _, _, extends', inside, known =>
    makes_breaksOnly extends' grounded inside known modId versions optional
      (exception_makes config grounded exception)
  | .all parts exception, _, _, _, _, _, extends', inside, known =>
    makes_breaksAll extends' grounded inside known (parts_make config grounded parts)
      (exception_makes config grounded exception)

theorem parts_make (config : Config) {base : ChoiceTable} (grounded : base.Grounded) :
    ∀ parts : List Breakage, PartsMake config base parts
  | [], _, _, branches, _, _, _, _ => by
    refine (makes_pure config _ _).congr fun value => ?_
    simp [Breakage.AllHeeded]
  | _ :: _, _, _, [], _, _, _, _ => by
    refine (makes_pure config _ _).congr fun value => ?_
    simp [Breakage.AllHeeded]
  | part :: rest, table, forest, branch :: branches, parent, extends', registered,
      within => by
    have grounded' := extends'.grounded grounded
    have within' : ∀ branch ∈ branches, branch < table.entries.size :=
      fun other member => within other (List.mem_cons_of_mem _ member)
    have first := addBreakage_makes config grounded part branch .part (some parent) extends'
      (within branch List.mem_cons_self) fun id equal => by cases equal; exact registered
    refine (first.bind (fun later forest' further kept =>
      (parts_make config grounded rest later forest' branches parent (extends'.trans further)
        (kept parent registered)
        fun other member => (within' other member).trans_le further.size_le).congr fun value =>
          Breakage.allHeeded_later further grounded' within' rest)
      (Breakage.below_allHeeded extends' branches rest)).congr fun value => ?_
    simp [Breakage.AllHeeded]

end

/-- The breakages of a source ask that none is active where it is loaded. -/
theorem breakages_make (config : Config) (extends' : base.Extends table)
    (grounded : base.Grounded) (inside : source < table.entries.size) (breakages : List Breakage) :
    Makes config (breakages.forM (addBreakage source .standalone none)) table forest fun value =>
      ∀ breakage ∈ breakages, breakage.Heeded base table source .standalone value :=
  makes_forM (fun breakage _ _ _ further =>
    (addBreakage_makes config grounded breakage source .standalone none (extends'.trans further)
      (inside.trans_le further.size_le) nofun).congr fun _ =>
        Breakage.heeded_later further (extends'.grounded grounded) inside .standalone breakage)
    fun breakage _ => Breakage.below_heeded extends' source .standalone breakage

/-! ### What links come to -/

/-- **The rules of a link say what it means**, wherever its parts and exceptions are nested: values
can be extended to the branches that they need just when the source is not loaded, or the
dependency holds, or the breakage is not active. -/
theorem links_keep_meaning (config : Config) (grounded : table.Grounded) (forest : Forest)
    (inside : source < table.entries.size) :
    (∀ dependency : Dependency,
      Imposes config (addDependency source none dependency) table forest fun value =>
        table.loads value source = false ∨ dependency.holds (table.offers value) = true) ∧
    ∀ breakage : Breakage,
      Imposes config (addBreakage source .standalone none breakage) table forest fun value =>
        table.loads value source = false ∨ breakage.isActive (table.offers value) = false := by
  have refl := ChoiceTable.Extends.refl table
  constructor
  · intro dependency
    have makes : Makes config (addDependency source none dependency) table forest
        (dependency.Met table table source) :=
      addDependency_makes config grounded dependency source none refl inside nofun
    refine (makes.imposes (Dependency.below_met refl source dependency)).congr fun value => ?_
    unfold Dependency.Met
    rw [← Bool.not_eq_true, ← imp_iff_not_or]
  · intro breakage
    have makes : Makes config (addBreakage source .standalone none breakage) table forest
        (breakage.Heeded table table source .standalone) :=
      addBreakage_makes config grounded breakage source .standalone none refl inside nofun
    refine (makes.imposes (Breakage.below_heeded refl source .standalone breakage)).congr
      fun value => ?_
    unfold Breakage.Heeded Rule.Clash
    rw [← Bool.not_eq_true (breakage.isActive _), imp_iff_not_or, or_comm]

/-- A table with a chain of aliases and a choice that was removed. -/
def shelf : ChoiceTable where
  entries := #[⟨.candidate "app" "app-1" (.ofNumbers [1]) false, 0, true⟩,
    ⟨.candidate "library" "library-2" (.ofNumbers [2]) false, 0, true⟩,
    ⟨.alias 1 "core" (.ofNumbers [1]), 0, true⟩,
    ⟨.alias 2 "base" (.ofNumbers [3]), 0, true⟩,
    ⟨.candidate "addon" "addon-1" (.ofNumbers [1]) false, 0, false⟩,
    ⟨.candidate "patch" "patch-1" (.ofNumbers [1]) false, 0, true⟩]

/-- One of two alternatives, unless there is a patch, or the app in no version but one that the
shelf has not. -/
def shelfDependency : Dependency :=
  .any [.only "core" (.exact (.ofNumbers [1])) false none, .only "addon" .any false none]
    (some (.only "patch" .any false (some (.only "app" (.exact (.ofNumbers [2])) true none))))

/-- A version of the base together with a patch, unless there is an addon. -/
def shelfBreakage : Breakage :=
  .all [.only "base" (.exact (.ofNumbers [3])) false none,
    .only "patch" .any false (some (.only "addon" .any false none))] none

/-- Without the library the app cannot be loaded, and with it the patch cannot. -/
theorem links_keep_meaning_of_shelf :
    (∃ later forest', Gives (addDependency 0 none shelfDependency) (draft .standard shelf .empty) ()
        (draft .standard later forest') ∧
      (¬∃ other, ChoiceTable.AgreeBelow 6 (fun id => id == 0) other ∧
        forest'.SatisfiedFrom 0 other) ∧
      ∃ other, ChoiceTable.AgreeBelow 6 (fun id => id == 0 || id == 1) other ∧
        forest'.SatisfiedFrom 0 other) ∧
    ∃ later forest', Gives (addBreakage 0 .standalone none shelfBreakage)
        (draft .standard shelf .empty) () (draft .standard later forest') ∧
      (¬∃ other, ChoiceTable.AgreeBelow 6 (fun _ => true) other ∧
        forest'.SatisfiedFrom 0 other) ∧
      ∃ other, ChoiceTable.AgreeBelow 6 (fun id => id == 0 || id == 1) other ∧
        forest'.SatisfiedFrom 0 other := by
  have grounded : shelf.Grounded := ChoiceTable.grounded_of_entries (by decide +kernel)
  have inside : 0 < shelf.entries.size := by decide
  obtain ⟨dependencies, breakages⟩ := links_keep_meaning .standard grounded .empty inside
  obtain ⟨later, forest', given, _, _, _, meaning⟩ := dependencies shelfDependency
  obtain ⟨later', forest'', given', _, _, _, meaning'⟩ := breakages shelfBreakage
  refine ⟨⟨later, forest', given, fun extended => ?_, (meaning _).mpr (by decide +kernel)⟩,
    later', forest'', given', fun extended => ?_, (meaning' _).mpr (by decide +kernel)⟩
  · exact absurd ((meaning _).mp extended) (by decide +kernel)
  · exact absurd ((meaning' _).mp extended) (by decide +kernel)

end Resolver

end Loadout
