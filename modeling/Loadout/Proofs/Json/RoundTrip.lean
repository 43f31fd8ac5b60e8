/-
**What is written as JSON is read again.**

Requests and all that they consist of are written as JSON and read again, and so are outcomes and
settings. A version or constraint is written as its text, so it has to be one that was read from a
text (`Dependency.Parsed`, `Breakage.Parsed`, `Candidate.Parsed`):

* `Dependency.read?_toJson`, `Breakage.read?_toJson`: at every depth, a composite is read as such,
  and a link to one mod id is not mistaken for a composite;
* `whole?_dependency`, `whole?_breakage`: nothing unreadable is written;
* **`read_written`**: what is read is what was written, field by field.
-/

import Loadout.Config.Json
import Loadout.Outcome
import Loadout.Proofs.Json.Slots
import Loadout.Proofs.OrderedMap
import Loadout.Proofs.Version.Reparsing

namespace Loadout

/-! ### What was read from texts -/

mutual

/-- The constraints of a dependency were read from texts. -/
def Dependency.Parsed : Dependency → Prop
  | .only _ versions _ exception => versions.Parsed ∧ Dependency.ExceptionParsed exception
  | .any alternatives exception =>
    Dependency.ListParsed alternatives ∧ Dependency.ExceptionParsed exception

/-- Those of an exception were, if there is one. -/
def Dependency.ExceptionParsed : Option Dependency → Prop
  | none => True
  | some exception => exception.Parsed

/-- Those of several dependencies were. -/
def Dependency.ListParsed : List Dependency → Prop
  | [] => True
  | dependency :: rest => dependency.Parsed ∧ Dependency.ListParsed rest

end

mutual

/-- The constraints of a breakage were read from texts. -/
def Breakage.Parsed : Breakage → Prop
  | .only _ versions _ exception => versions.Parsed ∧ Dependency.ExceptionParsed exception
  | .all parts exception => Breakage.ListParsed parts ∧ Dependency.ExceptionParsed exception

/-- Those of several breakages were. -/
def Breakage.ListParsed : List Breakage → Prop
  | [] => True
  | breakage :: rest => breakage.Parsed ∧ Breakage.ListParsed rest

end

/-- The constraints of a link to one mod id were read from texts. -/
def Target.Parsed (target : Target) : Prop :=
  target.dependency.Parsed

/-- The version that is provided was read from a text, if there is one. -/
def Provided.Parsed (provided : Provided) : Prop :=
  ∀ version ∈ provided.version, version.Parsed

/-- **The versions and constraints of a candidate were read from texts**, and its weight has a place
in 64 bits. -/
structure Candidate.Parsed (candidate : Candidate) : Prop where
  version : candidate.version.Parsed
  weight : weightMin ≤ candidate.weight ∧ candidate.weight ≤ weightMax
  depends : ∀ dependency ∈ candidate.depends, dependency.Parsed
  breaks : ∀ breakage ∈ candidate.breaks, breakage.Parsed
  provides : ∀ provided ∈ candidate.provides, provided.Parsed

/-- Those of all candidates of a request were. -/
def Request.Parsed (request : Request) : Prop :=
  ∀ entry ∈ request.pools.entries, ∀ candidate ∈ entry.2, candidate.Parsed

theorem Version.Parsed.ofJson?_toJson {version : Version} (parsed : version.Parsed) :
    Version.ofJson? version.toJson = some version := by
  show (Version.parse version.text).toOption = some version
  rw [parsed.parse_text]
  rfl

theorem Constraint.Parsed.ofJson?_toJson {constraint : Constraint} (parsed : constraint.Parsed) :
    Constraint.ofJson? constraint.toJson = some constraint := by
  show (Constraint.parse constraint.text).toOption = some constraint
  rw [parsed.parse_text]
  rfl

/-! ### Links -/

/-- The slots of a link to one mod id. -/
def linkSlots (modId : String) (versions : Constraint) (optional : Bool)
    (exception : Option Dependency) : List (String × Option Json) :=
  [("id", some (.string modId)), ("versions", some versions.toJson),
    ("optional", some (.bool optional)), ("unless", exception.map Dependency.toJson)]

theorem distinct_linkSlots (modId : String) (versions : Constraint) (optional : Bool)
    (exception : Option Dependency) :
    ((linkSlots modId versions optional exception).map Prod.fst).Nodup := by
  simp [linkSlots]

/-- The slots of a composite. -/
def compositeSlots (name : String) (parts : List Json) (exception : Option Dependency) :
    List (String × Option Json) :=
  [(name, some (.array parts)), ("unless", exception.map Dependency.toJson)]

namespace Dependency

theorem toJson_only (modId : String) (versions : Constraint) (optional : Bool)
    (exception : Option Dependency) : (Dependency.only modId versions optional exception).toJson =
      .object (Json.slotFields (linkSlots modId versions optional exception)) := by
  cases exception <;> rfl

theorem toJson_any (alternatives : List Dependency) (exception : Option Dependency) :
    (Dependency.any alternatives exception).toJson =
      .object (Json.slotFields (compositeSlots "any" (alternatives.map toJson) exception)) := by
  have list : ∀ dependencies : List Dependency, listToJson dependencies = dependencies.map toJson := by
    intro dependencies
    induction dependencies with
    | nil => rfl
    | cons dependency rest ih => exact congrArg (dependency.toJson :: ·) ih
  rw [← list]
  cases exception <;> rfl

/-- An exception is read again from its slot, which is left out where there is none. -/
theorem optional_exception {read : Json → Option Dependency} {exception : Option Dependency}
    (each : ∀ dependency ∈ exception, read dependency.toJson = some dependency) :
    Json.optional (Json.nullable read) none (exception.map toJson) = some exception := by
  cases exception with
  | none => rfl
  | some dependency =>
    have read' := each dependency rfl
    show Json.nullable read dependency.toJson = _
    cases dependency with
    | only modId versions optional exception =>
      rw [toJson_only] at read' ⊢
      exact congrArg (Option.map some) read'
    | any alternatives exception =>
      rw [toJson_any] at read' ⊢
      exact congrArg (Option.map some) read'

end Dependency

/-- **A composite is read again** if its parts and its exception are. -/
theorem readComposite?_slots {α : Type} {name : String} {part? : Json → Option α}
    {exception? : Json → Option Dependency} {write : α → Json} {parts : List α}
    {exception : Option Dependency} (other : name ≠ "unless")
    (each : ∀ part ∈ parts, part? (write part) = some part)
    (excepted : ∀ dependency ∈ exception, exception? dependency.toJson = some dependency) :
    readComposite? name part? exception?
      (.object (Json.slotFields (compositeSlots name (parts.map write) exception))) =
        some (parts, exception) := by
  have read : Json.objectRecord? [name, "unless"]
      (.object (Json.slotFields (compositeSlots name (parts.map write) exception))) =
        some [some (.array (parts.map write)), exception.map Dependency.toJson] :=
    Json.objectRecord?_slots (by simp [compositeSlots, other])
  unfold readComposite?
  rw [read]
  dsimp only [Json.required, Option.bind_some]
  rw [Json.list?_map each, Dependency.optional_exception excepted]
  rfl

/-- A link to one mod id is not mistaken for a composite. -/
theorem readComposite?_link {α : Type} {name : String} {part? : Json → Option α}
    {exception? : Json → Option Dependency} (modId : String) (versions : Constraint)
    (optional : Bool) (exception : Option Dependency)
    (absent : name ∉ ["id", "versions", "optional", "unless"]) :
    readComposite? name part? exception?
      (.object (Json.slotFields (linkSlots modId versions optional exception))) = none := by
  have missing : Json.field? name
      (Json.slotFields (linkSlots modId versions optional exception)) = some none :=
    Json.field?_of_absent absent
  have there : Json.field? "unless"
      (Json.slotFields (linkSlots modId versions optional exception)) =
        some (exception.map Dependency.toJson) :=
    Json.field?_slotFields (distinct_linkSlots modId versions optional exception)
      (by simp [linkSlots])
  have read : Json.objectRecord? [name, "unless"]
      (.object (Json.slotFields (linkSlots modId versions optional exception))) =
        some [none, exception.map Dependency.toJson] := by
    unfold Json.objectRecord?
    dsimp only
    rw [List.mapM_cons, missing, List.mapM_cons, there]
    rfl
  unfold readComposite?
  rw [read]
  rfl

/-- **A link to one mod id is read again** if its exception is. -/
theorem Target.read?_slots {exception? : Json → Option Dependency} {modId : String}
    {versions : Constraint} {optional : Bool} {exception : Option Dependency}
    (parsed : versions.Parsed)
    (excepted : ∀ dependency ∈ exception, exception? dependency.toJson = some dependency) :
    Target.read? exception?
      (.object (Json.slotFields (linkSlots modId versions optional exception))) =
        some ⟨modId, versions, optional, exception⟩ := by
  have read : Json.record? ["id", "versions", "optional", "unless"]
      (.object (Json.slotFields (linkSlots modId versions optional exception))) =
        some [some (.string modId), some versions.toJson, some (.bool optional),
          exception.map Dependency.toJson] :=
    Json.record?_slots (distinct_linkSlots modId versions optional exception)
  unfold Target.read?
  rw [read]
  dsimp only [Json.required, Option.bind_some]
  rw [show Json.optional Constraint.ofJson? .any (some versions.toJson) = some versions from
    parsed.ofJson?_toJson, Dependency.optional_exception excepted]
  rfl

/-! ### Dependencies and breakages -/

/-- What stands in the slot of an exception is less deep than the link. -/
theorem depth_of_exception {slots : List (String × Option Json)} {exception : Option Dependency}
    (inside : ("unless", exception.map Dependency.toJson) ∈ slots) {depth : Nat}
    (enough : (Json.object (Json.slotFields slots)).depth ≤ depth + 1) {dependency : Dependency}
    (given : dependency ∈ exception) : dependency.toJson.depth ≤ depth := by
  cases given
  exact Nat.le_of_lt_succ (Nat.lt_of_lt_of_le (Json.depth_lt_of_slot inside) enough)

/-- What stands among the parts of a composite is less deep than it. -/
theorem depth_of_part {name : String} {parts : List Json} {exception : Option Dependency}
    {depth : Nat} (enough : (Json.object (Json.slotFields
      (compositeSlots name parts exception))).depth ≤ depth + 1)
    {part : Json} (inside : part ∈ parts) : part.depth ≤ depth := by
  have within := Json.depth_lt_of_element inside
  have composite : (name, some (Json.array parts)) ∈ compositeSlots name parts exception :=
    List.mem_cons_self
  have above := Json.depth_lt_of_slot composite
  omega

mutual

/-- **A dependency is read again** from its JSON, at every depth that is enough. -/
theorem Dependency.read?_toJson : ∀ (dependency : Dependency), dependency.Parsed →
    ∀ depth, dependency.toJson.depth ≤ depth →
      Dependency.read? depth dependency.toJson = some dependency
  | .only modId versions optional exception, parsed, depth, enough => by
    rw [toJson_only] at enough ⊢
    cases depth with
    | zero => cases enough
    | succ depth =>
      have excepted := Dependency.exception_read? exception parsed.2 depth fun dependency given =>
        depth_of_exception (by simp [linkSlots]) enough given
      unfold Dependency.read?
      rw [readComposite?_link modId versions optional exception (by decide)]
      dsimp only
      rw [Target.read?_slots parsed.1 excepted]
      rfl
  | .any alternatives exception, parsed, depth, enough => by
    rw [toJson_any] at enough ⊢
    cases depth with
    | zero => cases enough
    | succ depth =>
      have excepted := Dependency.exception_read? exception parsed.2 depth fun dependency given =>
        depth_of_exception (by simp [compositeSlots]) enough given
      have each := Dependency.list_read? alternatives parsed.1 depth fun alternative inside =>
        depth_of_part enough (List.mem_map_of_mem inside)
      unfold Dependency.read?
      rw [readComposite?_slots (by decide) each excepted]

theorem Dependency.exception_read? : ∀ (exception : Option Dependency),
    Dependency.ExceptionParsed exception → ∀ depth,
      (∀ dependency ∈ exception, dependency.toJson.depth ≤ depth) →
      ∀ dependency ∈ exception, Dependency.read? depth dependency.toJson = some dependency
  | none, _, _, _ => nofun
  | some exception, parsed, depth, enough => by
    intro dependency given
    cases given
    exact Dependency.read?_toJson exception parsed depth (enough exception rfl)

theorem Dependency.list_read? : ∀ (dependencies : List Dependency),
    Dependency.ListParsed dependencies → ∀ depth,
      (∀ dependency ∈ dependencies, dependency.toJson.depth ≤ depth) →
      ∀ dependency ∈ dependencies, Dependency.read? depth dependency.toJson = some dependency
  | [], _, _, _ => nofun
  | first :: rest, parsed, depth, enough => by
    obtain ⟨here, later⟩ := List.forall_mem_cons.mp enough
    exact List.forall_mem_cons.mpr ⟨Dependency.read?_toJson first parsed.1 depth here,
      Dependency.list_read? rest parsed.2 depth later⟩

end

theorem Dependency.Parsed.ofJson?_toJson {dependency : Dependency} (parsed : dependency.Parsed) :
    Dependency.ofJson? dependency.toJson = some dependency :=
  Dependency.read?_toJson dependency parsed _ (Nat.le_refl _)

theorem Dependency.ExceptionParsed.ofJson?_toJson {exception : Option Dependency}
    (parsed : Dependency.ExceptionParsed exception) :
    ∀ dependency ∈ exception, Dependency.ofJson? dependency.toJson = some dependency := by
  intro dependency given
  cases given
  exact Dependency.Parsed.ofJson?_toJson parsed

theorem Target.Parsed.ofJson?_toJson {target : Target} (parsed : target.Parsed) :
    Target.ofJson? target.toJson = some target := by
  unfold Target.toJson Target.dependency
  rw [Dependency.toJson_only]
  exact Target.read?_slots parsed.1 (Dependency.ExceptionParsed.ofJson?_toJson parsed.2)

namespace Breakage

theorem toJson_only (modId : String) (versions : Constraint) (optional : Bool)
    (exception : Option Dependency) : (Breakage.only modId versions optional exception).toJson =
      .object (Json.slotFields (linkSlots modId versions optional exception)) := by
  cases exception <;> rfl

theorem toJson_all (parts : List Breakage) (exception : Option Dependency) :
    (Breakage.all parts exception).toJson =
      .object (Json.slotFields (compositeSlots "all" (parts.map toJson) exception)) := by
  have list : ∀ breakages : List Breakage, listToJson breakages = breakages.map toJson := by
    intro breakages
    induction breakages with
    | nil => rfl
    | cons breakage rest ih => exact congrArg (breakage.toJson :: ·) ih
  rw [← list]
  cases exception <;> rfl

end Breakage

mutual

/-- **A breakage is read again** from its JSON, at every depth that is enough. -/
theorem Breakage.read?_toJson : ∀ (breakage : Breakage), breakage.Parsed →
    ∀ depth, breakage.toJson.depth ≤ depth →
      Breakage.read? depth breakage.toJson = some breakage
  | .only modId versions optional exception, parsed, depth, enough => by
    have excepted := Dependency.ExceptionParsed.ofJson?_toJson parsed.2
    rw [toJson_only] at enough ⊢
    cases depth with
    | zero => cases enough
    | succ depth =>
      unfold Breakage.read? Target.ofJson?
      rw [readComposite?_link modId versions optional exception (by decide)]
      dsimp only
      rw [Target.read?_slots parsed.1 excepted]
      rfl
  | .all parts exception, parsed, depth, enough => by
    have excepted := Dependency.ExceptionParsed.ofJson?_toJson parsed.2
    rw [toJson_all] at enough ⊢
    cases depth with
    | zero => cases enough
    | succ depth =>
      have each := Breakage.list_read? parts parsed.1 depth fun part inside =>
        depth_of_part enough (List.mem_map_of_mem inside)
      unfold Breakage.read?
      rw [readComposite?_slots (by decide) each excepted]

theorem Breakage.list_read? : ∀ (breakages : List Breakage), Breakage.ListParsed breakages →
    ∀ depth, (∀ breakage ∈ breakages, breakage.toJson.depth ≤ depth) →
      ∀ breakage ∈ breakages, Breakage.read? depth breakage.toJson = some breakage
  | [], _, _, _ => nofun
  | first :: rest, parsed, depth, enough => by
    obtain ⟨here, later⟩ := List.forall_mem_cons.mp enough
    exact List.forall_mem_cons.mpr ⟨Breakage.read?_toJson first parsed.1 depth here,
      Breakage.list_read? rest parsed.2 depth later⟩

end

theorem Breakage.Parsed.ofJson?_toJson {breakage : Breakage} (parsed : breakage.Parsed) :
    Breakage.ofJson? breakage.toJson = some breakage :=
  Breakage.read?_toJson breakage parsed _ (Nat.le_refl _)

/-! ### Nothing unreadable is written -/

theorem isReadable_link {modId : String} {versions : Constraint} {optional : Bool}
    {exception : Option Dependency}
    (excepted : ∀ dependency ∈ exception, dependency.toJson.isReadable = true) :
    (Json.object (Json.slotFields (linkSlots modId versions optional exception))).isReadable =
      true := by
  refine Json.isReadable_slots ?_
  simp only [linkSlots, List.forall_mem_cons, Option.mem_def, Option.map_eq_some_iff]
  refine ⟨?_, ?_, ?_, ?_, nofun⟩
  · rintro _ ⟨⟩
    rfl
  · rintro _ ⟨⟩
    rfl
  · rintro _ ⟨⟩
    rfl
  · rintro _ ⟨dependency, given, rfl⟩
    exact excepted dependency given

theorem isReadable_composite {name : String} {parts : List Json} {exception : Option Dependency}
    (each : ∀ part ∈ parts, part.isReadable = true)
    (excepted : ∀ dependency ∈ exception, dependency.toJson.isReadable = true) :
    (Json.object (Json.slotFields (compositeSlots name parts exception))).isReadable = true := by
  refine Json.isReadable_slots ?_
  simp only [compositeSlots, List.forall_mem_cons, Option.mem_def, Option.map_eq_some_iff]
  refine ⟨?_, ?_, nofun⟩
  · rintro _ ⟨⟩
    exact Json.isReadable_array each
  · rintro _ ⟨dependency, given, rfl⟩
    exact excepted dependency given

mutual

theorem Dependency.isReadable_toJson : ∀ dependency : Dependency,
    dependency.toJson.isReadable = true
  | .only _ _ _ exception => by
    rw [toJson_only]
    exact isReadable_link (Dependency.exception_isReadable exception)
  | .any alternatives exception => by
    rw [toJson_any]
    exact isReadable_composite
      (List.forall_mem_map.mpr (Dependency.list_isReadable alternatives))
      (Dependency.exception_isReadable exception)

theorem Dependency.exception_isReadable : ∀ exception : Option Dependency,
    ∀ dependency ∈ exception, dependency.toJson.isReadable = true
  | none => nofun
  | some exception => by
    intro dependency given
    cases given
    exact Dependency.isReadable_toJson exception

theorem Dependency.list_isReadable : ∀ dependencies : List Dependency,
    ∀ dependency ∈ dependencies, dependency.toJson.isReadable = true
  | [] => nofun
  | first :: rest => List.forall_mem_cons.mpr
    ⟨Dependency.isReadable_toJson first, Dependency.list_isReadable rest⟩

end

mutual

theorem Breakage.isReadable_toJson : ∀ breakage : Breakage, breakage.toJson.isReadable = true
  | .only _ _ _ exception => by
    rw [toJson_only]
    exact isReadable_link (Dependency.exception_isReadable exception)
  | .all parts exception => by
    rw [toJson_all]
    exact isReadable_composite (List.forall_mem_map.mpr (Breakage.list_isReadable parts))
      (Dependency.exception_isReadable exception)

theorem Breakage.list_isReadable : ∀ breakages : List Breakage,
    ∀ breakage ∈ breakages, breakage.toJson.isReadable = true
  | [] => nofun
  | first :: rest => List.forall_mem_cons.mpr
    ⟨Breakage.isReadable_toJson first, Breakage.list_isReadable rest⟩

end

/-- A dependency of a candidate is read as a whole. -/
theorem whole?_dependency {dependency : Dependency} (parsed : dependency.Parsed) :
    Json.whole? Dependency.ofJson? dependency.toJson = some dependency := by
  unfold Json.whole?
  rw [if_pos dependency.isReadable_toJson]
  exact parsed.ofJson?_toJson

/-- A breakage of a candidate is read as a whole. -/
theorem whole?_breakage {breakage : Breakage} (parsed : breakage.Parsed) :
    Json.whole? Breakage.ofJson? breakage.toJson = some breakage := by
  unfold Json.whole?
  rw [if_pos breakage.isReadable_toJson]
  exact parsed.ofJson?_toJson

/-! ### Candidates and requests -/

theorem Provided.Parsed.ofJson?_toJson {provided : Provided} (parsed : provided.Parsed) :
    Provided.ofJson? provided.toJson = some provided := by
  obtain ⟨modId, version⟩ := provided
  have slots : (Provided.mk modId version).toJson = .object (Json.slotFields
      [("id", some (.string modId)), ("version", version.map Version.toJson)]) := by
    cases version <;> rfl
  have read : Json.record? ["id", "version"] (Provided.mk modId version).toJson =
      some [some (.string modId), version.map Version.toJson] := by
    rw [slots]
    exact Json.record?_slots (by simp)
  unfold Provided.ofJson?
  rw [read]
  cases version with
  | none => rfl
  | some version =>
    have again := (parsed version rfl).ofJson?_toJson
    show (do return ({ modId, version := ← (Version.ofJson? version.toJson).map some } : Provided)) = _
    rw [again]
    rfl

/-- The slots of a candidate. -/
def candidateSlots (candidate : Candidate) : List (String × Option Json) :=
  [("key", some (.string candidate.key)), ("version", some candidate.version.toJson),
    ("mandatory", some (.bool candidate.mandatory)),
    ("weight", some (.integer candidate.weight)),
    ("depends", if candidate.depends.isEmpty then none
      else some (.array (candidate.depends.map Dependency.toJson))),
    ("breaks", if candidate.breaks.isEmpty then none
      else some (.array (candidate.breaks.map Breakage.toJson))),
    ("provides", if candidate.provides.isEmpty then none
      else some (.array (candidate.provides.map Provided.toJson)))]

theorem Candidate.toJson_eq (candidate : Candidate) :
    candidate.toJson = .object (Json.slotFields (candidateSlots candidate)) := by
  unfold Candidate.toJson Json.unlessEmpty candidateSlots
  cases candidate.depends.isEmpty <;> cases candidate.breaks.isEmpty <;>
    cases candidate.provides.isEmpty <;> rfl

/-- A weight is read again if it has a place in 64 bits. -/
theorem optional_weight {default weight : Int} (fits : weightMin ≤ weight ∧ weight ≤ weightMax) :
    Json.optional (Json.integer? weightMin weightMax) default (some (.integer weight)) =
      some weight :=
  if_pos fits

/-- **A candidate is read again** from its JSON. -/
theorem Candidate.Parsed.ofJson?_toJson {candidate : Candidate} (parsed : candidate.Parsed) :
    Candidate.ofJson? candidate.toJson = some candidate := by
  have read : Json.record?
      ["key", "version", "mandatory", "weight", "depends", "breaks", "provides"]
      candidate.toJson =
        some [some (.string candidate.key), some candidate.version.toJson,
          some (.bool candidate.mandatory), some (.integer candidate.weight),
          if candidate.depends.isEmpty then none
            else some (.array (candidate.depends.map Dependency.toJson)),
          if candidate.breaks.isEmpty then none
            else some (.array (candidate.breaks.map Breakage.toJson)),
          if candidate.provides.isEmpty then none
            else some (.array (candidate.provides.map Provided.toJson))] := by
    rw [Candidate.toJson_eq]
    exact Json.record?_slots (by simp [candidateSlots])
  unfold Candidate.ofJson?
  rw [read]
  dsimp only [Json.required, Option.bind_some]
  rw [parsed.version.ofJson?_toJson, optional_weight parsed.weight,
    Json.optional_list fun dependency inside => whole?_dependency (parsed.depends _ inside),
    Json.optional_list fun breakage inside => whole?_breakage (parsed.breaks _ inside),
    Json.optional_list fun provided inside => (parsed.provides _ inside).ofJson?_toJson]
  rfl

/-- **A request is read again** from its JSON, its pools in their order. -/
theorem Request.Parsed.ofJson?_toJson {request : Request} (parsed : request.Parsed) :
    Request.ofJson? request.toJson = some request := by
  have pools : Json.entries? (Json.list? Candidate.ofJson?)
      (.object (request.pools.entries.map fun entry =>
        (entry.1, .array (entry.2.map Candidate.toJson)))) = some request.pools.entries :=
    @Json.entries?_map _ _ (fun pool => .array (pool.map Candidate.toJson)) _
      fun entry inside => Json.list?_map fun candidate member =>
        (parsed entry inside candidate member).ofJson?_toJson
  show (do return ⟨.ofList (← Json.entries? (Json.list? Candidate.ofJson?)
    (.object (request.pools.entries.map fun entry =>
      (entry.1, .array (entry.2.map Candidate.toJson)))))⟩ : Option Request) = _
  rw [pools]
  show some (Request.mk (.ofList request.pools.entries)) = _
  rw [OrderedMap.ofList_entries]

/-! ### Outcomes and settings -/

/-- A map is read again if its values are. -/
theorem OrderedMap.ofJson?_toJson {α : Type} {read : Json → Option α} {write : α → Json}
    (each : ∀ value, read (write value) = some value) (map : OrderedMap α) :
    OrderedMap.ofJson? read (map.toJson write) = some map := by
  unfold OrderedMap.ofJson? OrderedMap.toJson
  rw [Json.entries?_map fun entry _ => each entry.2]
  exact congrArg some map.ofList_entries

theorem list?_texts (texts : List String) : Json.list? Json.text? (textsToJson texts) = some texts :=
  Json.list?_map fun _ _ => rfl

theorem Problem.ofJson?_toJson (problem : Problem) :
    Problem.ofJson? problem.toJson = some problem := by
  show (do return { rootCauses := ← Json.list? Json.text? (textsToJson problem.rootCauses)
                    message := ← some problem.message
                    rules := ← Json.list? Json.text? (textsToJson problem.rules) } :
    Option Problem) = _
  rw [list?_texts, list?_texts]
  rfl

theorem Resolution.ofJson?_toJson (resolution : Resolution) :
    Resolution.ofJson? resolution.toJson = some resolution := by
  obtain ⟨selected, provided, rejected⟩ := resolution
  have texts (map : OrderedMap String) :
      OrderedMap.ofJson? Json.text? (map.toJson .string) = some map :=
    @OrderedMap.ofJson?_toJson _ Json.text? .string (fun _ => rfl) map
  have lists : Json.optional (OrderedMap.ofJson? (Json.list? Json.text?)) .empty
      (if rejected.entries.isEmpty then none else some (rejected.toJson textsToJson)) =
        some rejected := by
    by_cases nothing : rejected.entries.isEmpty = true
    · rw [if_pos nothing]
      exact congrArg some (OrderedMap.eq_of_entries (List.isEmpty_iff.mp nothing).symm)
    · rw [if_neg nothing]
      exact OrderedMap.ofJson?_toJson list?_texts rejected
  have read : Json.record? ["selected", "provided", "rejected"]
      (Resolution.mk selected provided rejected).toJson =
        some [some (selected.toJson .string), some (provided.toJson .string),
          if rejected.entries.isEmpty then none else some (rejected.toJson textsToJson)] := by
    have slots : (Resolution.mk selected provided rejected).toJson = .object (Json.slotFields
        [("selected", some (selected.toJson .string)), ("provided", some (provided.toJson .string)),
          ("rejected", if rejected.entries.isEmpty then none
            else some (rejected.toJson textsToJson))]) := by
      unfold Resolution.toJson
      dsimp only
      cases rejected.entries.isEmpty <;> rfl
    rw [slots]
    exact Json.record?_slots (by simp)
  unfold Resolution.ofJson?
  rw [read]
  dsimp only [Json.required, Option.bind_some]
  rw [texts, texts, lists]
  rfl

/-- **An outcome is read again** from its JSON. -/
theorem Outcome.ofJson?_toJson (outcome : Outcome) :
    Outcome.ofJson? outcome.toJson = some outcome := by
  cases outcome with
  | solved resolution => exact congrArg (Option.map Outcome.solved) resolution.ofJson?_toJson
  | infeasible problems =>
    have read : Json.list? Problem.ofJson? (.array (problems.map Problem.toJson)) = some problems :=
      Json.list?_map fun problem _ => problem.ofJson?_toJson
    exact congrArg (Option.map Outcome.infeasible) read

/-- **Settings are read again** from their JSON. -/
theorem Config.ofJson?_toJson {config : Config}
    (fits : weightMin ≤ config.inclusionBias ∧ config.inclusionBias ≤ weightMax) :
    Config.ofJson? config.toJson = some config := by
  obtain ⟨bias, timeout, minimize, limit⟩ := config
  let count (value : Nat) : Json := .integer value
  have counts (number : Option Nat) :
      Json.optional (Json.nullable Json.natural?) none (number.map count) = some number := by
    cases number with
    | none => rfl
    | some value =>
      have natural : Json.natural? (.integer value) = some value := by
        unfold Json.natural?
        dsimp only
        rw [if_pos (Int.natCast_nonneg value)]
        rfl
      exact congrArg (Option.map some) natural
  have read : Json.record? ["inclusion-bias", "timeout-ms", "minimize-cores", "max-reported-errors"]
      (Config.mk bias timeout minimize limit).toJson =
        some [some (.integer bias), timeout.map count, some (.bool minimize), limit.map count] := by
    have slots : (Config.mk bias timeout minimize limit).toJson = .object (Json.slotFields
        [("inclusion-bias", some (.integer bias)), ("timeout-ms", timeout.map count),
          ("minimize-cores", some (.bool minimize)), ("max-reported-errors", limit.map count)]) := by
      cases timeout <;> cases limit <;> rfl
    rw [slots]
    exact Json.record?_slots (by simp)
  unfold Config.ofJson?
  rw [read]
  dsimp only
  rw [optional_weight fits]
  show (do return { inclusionBias := bias
                    timeoutMs := ← Json.optional (Json.nullable Json.natural?) none (timeout.map count)
                    minimizeCores := minimize
                    maxReportedErrors :=
                      ← Json.optional (Json.nullable Json.natural?) none (limit.map count) } :
    Option Config) = _
  rw [counts, counts]
  rfl

/-! ### All types -/

/-- **What is written as JSON is read again, field by field.** So it is with requests, candidates,
dependencies, breakages, links and what is provided, however they are nested, if their versions and
constraints were read from texts and weights have a place in 64 bits; with all outcomes; and with
settings whose bias has a place in 64 bits. -/
theorem read_written :
    (∀ request : Request, request.Parsed → Request.ofJson? request.toJson = some request) ∧
    (∀ candidate : Candidate, candidate.Parsed →
      Candidate.ofJson? candidate.toJson = some candidate) ∧
    (∀ dependency : Dependency, dependency.Parsed →
      Dependency.ofJson? dependency.toJson = some dependency) ∧
    (∀ breakage : Breakage, breakage.Parsed →
      Breakage.ofJson? breakage.toJson = some breakage) ∧
    (∀ target : Target, target.Parsed → Target.ofJson? target.toJson = some target) ∧
    (∀ provided : Provided, provided.Parsed →
      Provided.ofJson? provided.toJson = some provided) ∧
    (∀ outcome : Outcome, Outcome.ofJson? outcome.toJson = some outcome) ∧
    ∀ config : Config, weightMin ≤ config.inclusionBias ∧ config.inclusionBias ≤ weightMax →
      Config.ofJson? config.toJson = some config :=
  ⟨fun _ parsed => parsed.ofJson?_toJson, fun _ parsed => parsed.ofJson?_toJson,
    fun _ parsed => parsed.ofJson?_toJson, fun _ parsed => parsed.ofJson?_toJson,
    fun _ parsed => parsed.ofJson?_toJson, fun _ parsed => parsed.ofJson?_toJson,
    Outcome.ofJson?_toJson, fun _ fits => Config.ofJson?_toJson fits⟩

/-- A range of versions as it is read from a text. -/
def newerRange : Constraint :=
  ⟨[[⟨.greaterOrEqual, ⟨"1.2", [1, 2], []⟩⟩, ⟨.less, ⟨"v2-rc", [2], [.name "rc"]⟩⟩], []],
    ">=1.2, <v2-rc || *"⟩

/-- One of several dependencies, the last of them with an exception of its own. -/
def nestedDependency : Dependency :=
  .any [.only "lib" newerRange false none, .any [] none,
    .only "gui" .any true (some (.any [.only "cli" .any false none] none))] none

/-- A candidate of which every field is written. -/
def nestedCandidate : Candidate where
  key := "app"
  version := ⟨"1.0-rc.1", [1, 0], [.name "rc", .number 1]⟩
  mandatory := true
  weight := -5
  depends := [nestedDependency]
  breaks := [.all [.only "old" newerRange false none, .all [] none] (some nestedDependency)]
  provides := [⟨"api", some ⟨"2", [2], []⟩⟩, ⟨"shell", none⟩]

theorem parsed_newerRange : newerRange.Parsed := ⟨"  >=1.2, <v2-rc || *\n", by decide +kernel⟩

theorem parsed_any : Constraint.any.Parsed := ⟨"", rfl⟩

theorem parsed_nestedDependency : nestedDependency.Parsed :=
  ⟨⟨⟨parsed_newerRange, trivial⟩, ⟨trivial, trivial⟩,
    ⟨parsed_any, ⟨⟨parsed_any, trivial⟩, trivial⟩, trivial⟩, trivial⟩, trivial⟩

theorem parsed_nestedCandidate : nestedCandidate.Parsed where
  version := ⟨"1.0-rc.1", by decide +kernel⟩
  weight := by decide
  depends := by
    intro dependency inside
    cases List.mem_singleton.mp inside
    exact parsed_nestedDependency
  breaks := by
    intro breakage inside
    cases List.mem_singleton.mp inside
    exact ⟨⟨⟨parsed_newerRange, trivial⟩, ⟨trivial, trivial⟩, trivial⟩, parsed_nestedDependency⟩
  provides := by
    refine List.forall_mem_cons.mpr ⟨?_, List.forall_mem_cons.mpr ⟨nofun, nofun⟩⟩
    rintro _ ⟨⟩
    exact ⟨"2", by decide +kernel⟩

/-- A request with that candidate, whose pools do not stand in the order of their names. -/
def nestedRequest : Request :=
  ⟨⟨[("shell", []), ("app", [nestedCandidate])], by decide⟩⟩

theorem parsed_nestedRequest : nestedRequest.Parsed := by
  refine List.forall_mem_cons.mpr ⟨nofun, List.forall_mem_cons.mpr ⟨?_, nofun⟩⟩
  intro candidate inside
  cases List.mem_singleton.mp inside
  exact parsed_nestedCandidate

/-- The request and its parts are read again, and so are the standard settings. -/
theorem read_written_of_nested :
    (nestedRequest.Parsed ∧ Request.ofJson? nestedRequest.toJson = some nestedRequest) ∧
    (nestedCandidate.Parsed ∧ Candidate.ofJson? nestedCandidate.toJson = some nestedCandidate) ∧
    (nestedDependency.Parsed ∧
      Dependency.ofJson? nestedDependency.toJson = some nestedDependency) ∧
    (Breakage.Parsed (.all [] none) ∧
      Breakage.ofJson? (Breakage.all [] none).toJson = some (.all [] none)) ∧
    ((Target.mk "lib" newerRange true none).Parsed ∧
      Target.ofJson? (Target.mk "lib" newerRange true none).toJson =
        some ⟨"lib", newerRange, true, none⟩) ∧
    ((Provided.mk "api" none).Parsed ∧
      Provided.ofJson? (Provided.mk "api" none).toJson = some ⟨"api", none⟩) ∧
    (weightMin ≤ Config.standard.inclusionBias ∧ Config.standard.inclusionBias ≤ weightMax) ∧
      Config.ofJson? Config.standard.toJson = some .standard := by
  obtain ⟨request, candidate, dependency, breakage, target, provided, _, config⟩ := read_written
  have target' : (Target.mk "lib" newerRange true none).Parsed := ⟨parsed_newerRange, trivial⟩
  have provided' : (Provided.mk "api" none).Parsed := nofun
  have fits : weightMin ≤ Config.standard.inclusionBias ∧
      Config.standard.inclusionBias ≤ weightMax := by decide
  exact ⟨⟨parsed_nestedRequest, request _ parsed_nestedRequest⟩,
    ⟨parsed_nestedCandidate, candidate _ parsed_nestedCandidate⟩,
    ⟨parsed_nestedDependency, dependency _ parsed_nestedDependency⟩,
    ⟨⟨trivial, trivial⟩, breakage _ ⟨trivial, trivial⟩⟩, ⟨target', target _ target'⟩,
    ⟨provided', provided _ provided'⟩, fits, config _ fits⟩

end Loadout
