/-
**Where links stand, and what an inspection reports of them.**

A tree of links has its pieces: the alternatives or parts in their order, and then the exception. A
place in it says at each level which of the pieces to take (`Declaration.naming`), and a place in a
request starts with the numbers of a candidate and of one of its trees (`Request.naming`). The
lexicographic order of places is that in which the links are written down, and mod ids are those of
the links if they are read off the places, in order and each place once (`Naming.Reads`):

* `reads_below`: what is read off several things is read off one after the other;
* `Declaration.piecewise`: induction over the pieces of a tree;
* `Declaration.reads`, `Request.reads`: the mod ids of a tree, and those of all candidates, are
  read off their places;
* `Naming.Reads.before`: to keep some mod ids once leaves them in the order of their first places;
* **`Inspection.mentions_exact`**: an inspection reports the mod ids that are named and that no
  candidate stands for, in the order in which they are first named, other than those that have an
  empty pool; and it counts the links.
-/

import Loadout.Inspection
import Loadout.Proofs.OrderedMap
import Mathlib.Data.Set.Card

namespace Loadout

/-! ### Places -/

/-- **What is named where**: the mod id, if any, that is named at each place. -/
abbrev Naming := List Nat → Option String

namespace Naming

/-- The places below several things: each starts with the number of one of them. -/
def below {α : Type} (naming : α → Naming) (things : List α) : Naming
  | [] => none
  | number :: path => things[number]?.bind fun thing => naming thing path

/-- A mod id is named at some place. -/
def Names (naming : Naming) (modId : String) : Prop :=
  ∃ path, naming path = some modId

/-- A mod id is named at a place before all those where the other one is. -/
def Before (naming : Naming) (modId other : String) : Prop :=
  ∃ path, naming path = some modId ∧ ∀ path', naming path' = some other → path < path'

/-- The places where a mod id is named. -/
def places (naming : Naming) : Set (List Nat) :=
  {path | (naming path).isSome}

/-- **Some mod ids are read off the places**: all places where one is named, each once, in
ascending order. -/
def Reads (naming : Naming) (modIds : List String) : Prop :=
  ∃ mentions : List (List Nat × String),
    mentions.Pairwise (fun one two => one.1 < two.1) ∧
    (∀ path modId, (path, modId) ∈ mentions ↔ naming path = some modId) ∧
    mentions.map Prod.snd = modIds

/-- No mod id is named before itself. -/
theorem Before.ne {naming : Naming} {modId other : String}
    (before : naming.Before modId other) : modId ≠ other := by
  rintro rfl
  obtain ⟨path, named, least⟩ := before
  exact lt_irrefl path (least path named)

section Below

variable {α : Type} {naming : α → Naming} {things : List α}

theorem below_no_things (path : List Nat) : below naming [] path = none := by
  cases path <;> rfl

theorem below_concat (last : α) (number : Nat) (path : List Nat) :
    below naming (things ++ [last]) (number :: path) =
      if number = things.length then naming last path
      else below naming things (number :: path) := by
  show (things ++ [last])[number]?.bind _ = if _ then _ else things[number]?.bind _
  split
  · next same => rw [same, List.getElem?_concat_length, Option.bind_some]
  · next differs =>
    by_cases inside : number < things.length
    · rw [List.getElem?_append_left inside]
    · rw [List.getElem?_eq_none (by simp; omega), List.getElem?_eq_none (by omega)]

/-- What is named below several things is named below one of them. -/
theorem number_of_below {path : List Nat} {modId : String}
    (named : below naming things path = some modId) :
    ∃ number rest, path = number :: rest ∧ number < things.length := by
  cases path with
  | nil => cases named
  | cons number rest =>
    obtain ⟨thing, found, _⟩ := Option.bind_eq_some_iff.mp named
    exact ⟨number, rest, rfl, (List.getElem?_eq_some_iff.mp found).1⟩

/-- **What is read off several things** is read off one after the other. -/
theorem reads_below {modIds : α → List String}
    (each : ∀ thing ∈ things, (naming thing).Reads (modIds thing)) :
    (below naming things).Reads (things.flatMap modIds) := by
  -- the places in the last thing start with its number, which is above those of the others
  induction things using List.reverseRecOn with
  | nil => exact ⟨[], .nil, fun path modId => by simp [below_no_things], rfl⟩
  | append_singleton things last ih =>
    obtain ⟨early, ascending, complete, read⟩ :=
      ih fun thing inside => each thing (List.mem_append_left _ inside)
    obtain ⟨inner, ascending', complete', read'⟩ :=
      each last (List.mem_append_right _ (List.mem_singleton_self _))
    let late := inner.map fun mention => (things.length :: mention.1, mention.2)
    have mem_late (path : List Nat) (modId : String) : (path, modId) ∈ late ↔
        ∃ rest, path = things.length :: rest ∧ naming last rest = some modId := by
      simp only [late, List.mem_map, Prod.mk.injEq, Prod.exists, ← complete']
      constructor
      · rintro ⟨rest, _, inside, rfl, rfl⟩
        exact ⟨rest, rfl, inside⟩
      · rintro ⟨rest, rfl, inside⟩
        exact ⟨rest, modId, inside, rfl, rfl⟩
    refine ⟨early ++ late, ?_, fun path modId => ?_, ?_⟩
    · rw [List.pairwise_append, List.pairwise_map]
      refine ⟨ascending,
        ascending'.imp fun less => List.cons_lt_cons_iff.mpr (.inr ⟨rfl, less⟩), ?_⟩
      rintro ⟨path, modId⟩ first ⟨path', modId'⟩ second
      obtain ⟨number, rest, rfl, less⟩ := number_of_below ((complete path modId).mp first)
      obtain ⟨rest', rfl, _⟩ := (mem_late path' modId').mp second
      exact List.cons_lt_cons_iff.mpr (.inl less)
    · rw [List.mem_append, complete, mem_late]
      cases path with
      | nil => simp [below]
      | cons number rest =>
        rw [below_concat]
        split
        · next same =>
          subst same
          have none : below naming things (things.length :: rest) = none := by
            simp [below]
          simp [none]
        · next differs => simp [differs]
    · rw [List.map_append, List.map_map, List.flatMap_append, List.flatMap_singleton, read, ← read']
      rfl

end Below

/-! ### What is read once -/

/-- Each value of some pairs that is kept once has its first key before all keys of the values
after it. -/
theorem pairwise_eraseDups {κ : Type} {less : κ → κ → Prop} (pairs : List (κ × String))
    (ascending : pairs.Pairwise fun one two => less one.1 two.1) :
    (pairs.map Prod.snd).eraseDups.Pairwise fun value other =>
      ∃ key, (key, value) ∈ pairs ∧ ∀ key', (key', other) ∈ pairs → less key key' := by
  induction length : pairs.length using Nat.strong_induction_on generalizing pairs with
  | _ size ih =>
    cases pairs with
    | nil => exact .nil
    | cons first rest =>
      obtain ⟨key, value⟩ := first
      rw [List.pairwise_cons] at ascending
      -- the values that differ from the first one come from the pairs that do
      let others := rest.filter fun pair => !pair.2 == value
      have shorter : others.length < size := by
        rw [← length, List.length_cons]
        exact Nat.lt_succ_of_le (List.length_filter_le ..)
      have values : (rest.map Prod.snd).filter (fun other => !other == value) =
          others.map Prod.snd := List.filter_map
      rw [List.map_cons, List.eraseDups_cons, values, List.pairwise_cons]
      have of_other {other : String} (inside : other ∈ (others.map Prod.snd).eraseDups)
          {key' : κ} (entered : (key', other) ∈ (key, value) :: rest) :
          (key', other) ∈ rest ∧ (key', other) ∈ others := by
        obtain ⟨pair, member, rfl⟩ := List.mem_map.mp (List.mem_eraseDups.mp inside)
        have differs := (List.mem_filter.mp member).2
        rcases List.mem_cons.mp entered with same | later
        · rw [(Prod.mk.inj same).2] at differs
          simp at differs
        · exact ⟨later, List.mem_filter.mpr ⟨later, differs⟩⟩
      refine ⟨fun other inside => ⟨key, List.mem_cons_self, fun key' entered => ?_⟩, ?_⟩
      · exact ascending.1 _ (of_other inside entered).1
      · refine (ih _ shorter others (ascending.2.sublist List.filter_sublist) rfl).imp_of_mem ?_
        rintro one other _ inside ⟨key', entered, least⟩
        exact ⟨key', List.mem_cons_of_mem _ (List.mem_filter.mp entered).1,
          fun _ entered' => least _ (of_other inside entered').2⟩

namespace Reads

variable {naming : Naming} {modIds : List String}

theorem mem_iff (reads : naming.Reads modIds) {modId : String} :
    modId ∈ modIds ↔ naming.Names modId := by
  obtain ⟨mentions, _, complete, rfl⟩ := reads
  unfold Names
  simp [← complete]

/-- **To keep some mod ids once** leaves them in the order of their first places. -/
theorem before (reads : naming.Reads modIds) (kept : String → Bool) :
    (modIds.filter kept).eraseDups.Pairwise naming.Before := by
  obtain ⟨mentions, ascending, complete, rfl⟩ := reads
  rw [List.filter_map]
  refine (pairwise_eraseDups _ (ascending.sublist List.filter_sublist)).imp_of_mem ?_
  rintro modId other _ inside ⟨path, entered, least⟩
  obtain ⟨mention, member, rfl⟩ := List.mem_map.mp (List.mem_eraseDups.mp inside)
  refine ⟨path, (complete _ _).mp (List.mem_filter.mp entered).1, fun path' named => ?_⟩
  exact least path' (List.mem_filter.mpr ⟨(complete _ _).mpr named, (List.mem_filter.mp member).2⟩)

/-- There are as many mod ids as places. -/
theorem encard_places (reads : naming.Reads modIds) : naming.places.encard = modIds.length := by
  obtain ⟨mentions, ascending, complete, rfl⟩ := reads
  have distinct : (mentions.map Prod.fst).Nodup :=
    List.pairwise_map.mpr (ascending.imp fun less => ne_of_lt less)
  have listed : naming.places = ((mentions.map Prod.fst).toFinset : Set (List Nat)) := by
    ext path
    simp [places, Option.isSome_iff_exists, ← complete]
  rw [listed, Set.encard_coe_eq_coe_finsetCard, List.toFinset_card_of_nodup distinct,
    List.length_map, List.length_map]

end Reads

end Naming

/-! ### Trees of links -/

/-- A tree of links, which a candidate depends on or which it breaks. -/
inductive Declaration
  | dependency (dependency : Dependency)
  | breakage (breakage : Breakage)

namespace Declaration

/-- The mod id that it names itself, if it is a link to one. -/
def named? : Declaration → Option String
  | dependency (.only modId ..) => some modId
  | dependency (.any ..) => none
  | breakage (.only modId ..) => some modId
  | breakage (.all ..) => none

/-- Its pieces: the alternatives or parts in their order, and then the exception. -/
def pieces : Declaration → List Declaration
  | dependency (.only _ _ _ exception) => exception.toList.map dependency
  | dependency (.any alternatives exception) => (alternatives ++ exception.toList).map dependency
  | breakage (.only _ _ _ exception) => exception.toList.map dependency
  | breakage (.all parts exception) => parts.map breakage ++ exception.toList.map dependency

/-- What is named at a place, which says at each level which of the pieces to take. -/
def naming (declaration : Declaration) : Naming
  | [] => declaration.named?
  | number :: path => declaration.pieces[number]?.bind fun piece => piece.naming path

/-- The mod ids that it names, in the order of their mention. -/
def modIds : Declaration → List String
  | dependency tree => tree.modIds
  | breakage tree => tree.modIds

theorem listModIds_dependencies (trees : List Dependency) :
    Dependency.listModIds trees = (trees.map dependency).flatMap modIds := by
  induction trees with
  | nil => rfl
  | cons tree rest ih =>
    unfold Dependency.listModIds
    rw [ih, List.map_cons, List.flatMap_cons]
    rfl

theorem listModIds_breakages (trees : List Breakage) :
    Breakage.listModIds trees = (trees.map breakage).flatMap modIds := by
  induction trees with
  | nil => rfl
  | cons tree rest ih =>
    unfold Breakage.listModIds
    rw [ih, List.map_cons, List.flatMap_cons]
    rfl

theorem exceptionModIds_eq (exception : Option Dependency) :
    Dependency.exceptionModIds exception = (exception.toList.map dependency).flatMap modIds := by
  cases exception with
  | none => rfl
  | some exception => exact (List.append_nil _).symm

/-- A tree names the mod id of its own link, and then those that its pieces name. -/
theorem modIds_eq (declaration : Declaration) :
    declaration.modIds = declaration.named?.toList ++ declaration.pieces.flatMap modIds := by
  match declaration with
  | dependency (.only modId _ _ exception) =>
    exact congrArg (modId :: ·) (exceptionModIds_eq exception)
  | dependency (.any alternatives exception) =>
    show Dependency.modIds _ = List.flatMap _ (List.map _ _)
    unfold Dependency.modIds
    rw [List.map_append, List.flatMap_append, listModIds_dependencies, exceptionModIds_eq]
  | breakage (.only modId _ _ exception) =>
    exact congrArg (modId :: ·) (exceptionModIds_eq exception)
  | breakage (.all parts exception) =>
    show Breakage.modIds _ = List.flatMap _ (_ ++ _)
    unfold Breakage.modIds
    rw [List.flatMap_append, listModIds_breakages, exceptionModIds_eq]

section Piecewise

set_option linter.unusedSectionVars false

variable {motive : Declaration → Prop}
  (step : ∀ declaration, (∀ piece ∈ declaration.pieces, motive piece) → motive declaration)

include step

mutual

theorem piecewise_dependency : ∀ tree : Dependency, motive (dependency tree)
  | .only _ _ _ exception => step _ fun _ inside => by
    obtain ⟨tree, member, rfl⟩ := List.mem_map.mp inside
    exact piecewise_exception exception tree (Option.mem_toList.mp member)
  | .any alternatives exception => step _ fun _ inside => by
    obtain ⟨tree, member, rfl⟩ := List.mem_map.mp inside
    rcases List.mem_append.mp member with member | member
    · exact piecewise_dependencies alternatives tree member
    · exact piecewise_exception exception tree (Option.mem_toList.mp member)

theorem piecewise_exception :
    ∀ exception : Option Dependency, ∀ tree ∈ exception, motive (dependency tree)
  | some exception, _, rfl => piecewise_dependency exception

theorem piecewise_dependencies :
    ∀ trees : List Dependency, ∀ tree ∈ trees, motive (dependency tree)
  | first :: rest, tree, member => by
    rcases List.mem_cons.mp member with same | member
    · rw [same]
      exact piecewise_dependency first
    · exact piecewise_dependencies rest tree member

end

mutual

theorem piecewise_breakage : ∀ tree : Breakage, motive (breakage tree)
  | .only _ _ _ exception => step _ fun _ inside => by
    obtain ⟨tree, member, rfl⟩ := List.mem_map.mp inside
    exact piecewise_exception step exception tree (Option.mem_toList.mp member)
  | .all parts exception => step _ fun _ inside => by
    rcases List.mem_append.mp inside with inside | inside
    · obtain ⟨tree, member, rfl⟩ := List.mem_map.mp inside
      exact piecewise_breakages parts tree member
    · obtain ⟨tree, member, rfl⟩ := List.mem_map.mp inside
      exact piecewise_exception step exception tree (Option.mem_toList.mp member)

theorem piecewise_breakages : ∀ trees : List Breakage, ∀ tree ∈ trees, motive (breakage tree)
  | first :: rest, tree, member => by
    rcases List.mem_cons.mp member with same | member
    · rw [same]
      exact piecewise_breakage first
    · exact piecewise_breakages rest tree member

end

/-- **Induction over the pieces of a tree.** -/
theorem piecewise : ∀ declaration, motive declaration
  | dependency tree => piecewise_dependency step tree
  | breakage tree => piecewise_breakage step tree

end Piecewise

/-- **The mod ids of a tree are read off its places.** -/
theorem reads (declaration : Declaration) : declaration.naming.Reads declaration.modIds := by
  induction declaration using piecewise with
  | step declaration ih =>
    obtain ⟨mentions, ascending, complete, read⟩ := Naming.reads_below ih
    -- what the tree names itself stands at the empty place, which comes first
    refine ⟨declaration.named?.toList.map (fun modId => ([], modId)) ++ mentions,
      ?_, fun path modId => ?_, ?_⟩
    · rw [List.pairwise_append]
      refine ⟨?_, ascending, fun own first mention inside => ?_⟩
      · cases declaration.named? with
        | none => exact .nil
        | some modId => exact List.pairwise_singleton _ _
      · obtain ⟨modId, _, rfl⟩ := List.mem_map.mp first
        obtain ⟨number, rest, same, _⟩ :=
          Naming.number_of_below ((complete mention.1 mention.2).mp inside)
        show [] < mention.1
        rw [same]
        exact List.nil_lt_cons _ _
    · rw [List.mem_append, complete, List.mem_map]
      cases path with
      | nil => simp [Naming.below, naming]
      | cons number rest => simp [Naming.below, naming]
    · rw [List.map_append, List.map_map, read, modIds_eq]
      congr 1
      exact List.map_id _

end Declaration

/-! ### Candidates and requests -/

namespace Candidate

/-- The trees of what a candidate depends on. -/
def dependencies (candidate : Candidate) : List Declaration :=
  candidate.depends.map .dependency

/-- The trees of what it breaks. -/
def breakages (candidate : Candidate) : List Declaration :=
  candidate.breaks.map .breakage

/-- All its trees, in the order in which they are read. -/
def declarations (candidate : Candidate) : List Declaration :=
  candidate.dependencies ++ candidate.breakages

end Candidate

namespace Request

variable {request : Request} {modId : String}

/-- What the candidates of a request name in some of their trees. A place starts with the numbers of
the candidate and of the tree. -/
def naming (request : Request) (trees : Candidate → List Declaration) : Naming :=
  Naming.below (fun entry => Naming.below Declaration.naming (trees entry.2)) request.candidates

/-- There is a candidate of a mod id. -/
def Defines (request : Request) (modId : String) : Prop :=
  ∃ candidate, (modId, candidate) ∈ request.candidates

/-- Some candidate provides a mod id. -/
def Provides (request : Request) (modId : String) : Prop :=
  ∃ entry ∈ request.candidates, ∃ provided ∈ entry.2.provides, provided.modId = modId

/-- There is a pool for a mod id, but no candidate in it. -/
def Vacant (request : Request) (modId : String) : Prop :=
  request.pools.get? modId = some []

/-- **The mod ids of all candidates are read off their places.** -/
theorem reads (request : Request) (trees : Candidate → List Declaration) :
    (request.naming trees).Reads
      (request.candidates.flatMap fun entry => (trees entry.2).flatMap Declaration.modIds) :=
  Naming.reads_below fun _ _ => Naming.reads_below fun tree _ => tree.reads

theorem reads_mentions (request : Request) :
    (request.naming Candidate.declarations).Reads request.mentions := by
  have same (candidate : Candidate) :
      candidate.mentions = candidate.declarations.flatMap Declaration.modIds := by
    unfold Candidate.mentions Candidate.declarations
    rw [List.flatMap_append, Declaration.listModIds_dependencies,
      Declaration.listModIds_breakages]
    rfl
  unfold mentions
  simp only [same]
  exact request.reads Candidate.declarations

/-- A mod id has a pool if there is a candidate of it, or if the pool is empty. -/
theorem mem_keys : modId ∈ request.pools.keys ↔ request.Defines modId ∨ request.Vacant modId := by
  unfold OrderedMap.keys Defines Vacant
  rw [OrderedMap.get?_eq_some_iff, List.mem_map]
  constructor
  · rintro ⟨⟨_, pool⟩, inside, rfl⟩
    cases pool with
    | nil => exact .inr inside
    | cons candidate rest =>
      exact .inl ⟨candidate, List.mem_flatMap.mpr ⟨_, inside, List.mem_map.mpr
        ⟨candidate, List.mem_cons_self, rfl⟩⟩⟩
  · rintro (⟨candidate, known⟩ | empty)
    · obtain ⟨pool, inside, held⟩ := List.mem_flatMap.mp known
      obtain ⟨_, _, same⟩ := List.mem_map.mp held
      exact ⟨pool, inside, (Prod.mk.inj same).1⟩
    · exact ⟨_, empty, rfl⟩

/-- The keys of what is appended under each of some mod ids. -/
theorem mem_keys_foldl_append (provides : List Provided) (key : String)
    (map : OrderedMap (List String)) :
    modId ∈ (provides.foldl (fun map provided => map.append provided.modId key) map).keys ↔
      modId ∈ map.keys ∨ ∃ provided ∈ provides, provided.modId = modId := by
  induction provides generalizing map with
  | nil => simp
  | cons provided rest ih =>
    rw [List.foldl_cons, ih, OrderedMap.mem_keys_append, List.exists_mem_cons_iff, or_assoc,
      eq_comm]

theorem mem_keys_providers : modId ∈ request.providers.keys ↔ request.Provides modId := by
  have folded (entries : List (String × Candidate)) (map : OrderedMap (List String)) :
      modId ∈ (entries.foldl (fun map entry => entry.2.provides.foldl (fun map provided =>
        map.append provided.modId entry.2.key) map) map).keys ↔
      modId ∈ map.keys ∨ ∃ entry ∈ entries, ∃ provided ∈ entry.2.provides,
        provided.modId = modId := by
    induction entries generalizing map with
    | nil => simp
    | cons entry rest ih =>
      rw [List.foldl_cons, ih, mem_keys_foldl_append, List.exists_mem_cons_iff, or_assoc]
  exact (folded request.candidates .empty).trans (or_iff_right List.not_mem_nil)

end Request

/-! ### Inspections -/

namespace Inspection

/-- **What an inspection reports of links.** The unknown mod ids are those that some link names, at
whatever depth, and that no candidate stands for, whether by its own mod id or by one it provides,
each once and in the order of first mention. A mod id is taken to be known as well if it has a pool
that is empty. The dependencies and breakages are counted by the places of their links, exceptions
included. -/
theorem mentions_exact (request : Request) :
    (∀ modId, modId ∈ (ofRequest request).unknownIds ↔
      (request.naming Candidate.declarations).Names modId ∧ ¬request.Defines modId ∧
        ¬request.Provides modId ∧ ¬request.Vacant modId) ∧
    (ofRequest request).unknownIds.Nodup ∧
    (ofRequest request).unknownIds.Pairwise (request.naming Candidate.declarations).Before ∧
    (request.naming Candidate.dependencies).places.encard = (ofRequest request).dependencies ∧
    (request.naming Candidate.breakages).places.encard = (ofRequest request).breakages := by
  have ordered : (ofRequest request).unknownIds.Pairwise
      (request.naming Candidate.declarations).Before :=
    request.reads_mentions.before _
  refine ⟨fun modId => ?_, ordered.imp Naming.Before.ne, ordered, ?_, ?_⟩
  · show modId ∈ (List.filter _ _).eraseDups ↔ _
    rw [List.mem_eraseDups, List.mem_filter, request.reads_mentions.mem_iff]
    simp only [Bool.and_eq_true, Bool.not_eq_true', Bool.eq_false_iff, ne_eq,
      List.contains_iff_mem, Request.mem_keys, Request.mem_keys_providers, not_or]
    tauto
  · rw [(request.reads Candidate.dependencies).encard_places]
    show _ = (((request.candidates.map Prod.snd).flatMap fun candidate =>
      Dependency.listModIds candidate.depends).length : ℕ∞)
    rw [List.flatMap_map]
    simp only [Declaration.listModIds_dependencies]
    rfl
  · rw [(request.reads Candidate.breakages).encard_places]
    show _ = (((request.candidates.map Prod.snd).flatMap fun candidate =>
      Breakage.listModIds candidate.breaks).length : ℕ∞)
    rw [List.flatMap_map]
    simp only [Declaration.listModIds_breakages]
    rfl

/-- A request whose only candidate depends on a mod with an empty pool. -/
def vacantRequest : Request :=
  Request.ofPools [("app", [(Candidate.plain "app.jar" default).dependingOn
    (Target.toMod "lib").dependency]), ("lib", [])]

/-- **Of a mod id with an empty pool nothing is reported**, although a link names it and there is no
candidate for it. -/
theorem not_reported_of_vacant :
    ¬∀ modId, modId ∈ (ofRequest vacantRequest).unknownIds ↔
      (vacantRequest.naming Candidate.declarations).Names modId ∧
        ¬vacantRequest.Defines modId ∧ ¬vacantRequest.Provides modId := by
  intro reported
  have candidates : vacantRequest.candidates = [("app",
      (Candidate.plain "app.jar" default).dependingOn (Target.toMod "lib").dependency)] := rfl
  have nothing : (ofRequest vacantRequest).unknownIds = [] := by decide +kernel
  have unknown : "lib" ∈ (ofRequest vacantRequest).unknownIds := by
    refine (reported "lib").mpr ⟨⟨[0, 0], rfl⟩, ?_, ?_⟩
    · rintro ⟨candidate, known⟩
      rw [candidates, List.mem_singleton, Prod.mk.injEq] at known
      exact absurd known.1 (by decide)
    · rintro ⟨entry, known, provided, inside, _⟩
      rw [candidates, List.mem_singleton] at known
      subst known
      cases inside
  rw [nothing] at unknown
  cases unknown

end Inspection

end Loadout
