/-
**A diagnosis ends and accounts for what it removes.**

Each round of a diagnosis finds a conflict, takes its outermost rules for causes, those that are
mandatory apart, and removes one of the causes with its parts. So every round leaves fewer rules,
and what it removes is a cause that has been given.

* `Open.answer`: an undisturbed engine with settled rules always answers, and keeps its rules;
* `Account`: what some rounds have removed and found;
* `Account.round`: a round that removes a rule comes before the account of the later ones;
* `diagnoseRounds_account`: what a number of rounds finds and removes, if there are more of them
  than rules;
* **`diagnose_accounts`**: a diagnosis of an engine in use ends with rules that can hold together,
  or with a conflict of mandatory rules alone; it gives problems just when the rules cannot hold
  together, no more than rules, and none of its causes twice; and what it removes are whole trees
  of rules that are not mandatory.
-/

import Loadout.Proofs.Engine.Counts

namespace Loadout

namespace Engine

variable {engine after : Engine}

/-! ### Questions to an undisturbed engine -/

/-- **An undisturbed engine whose rules may still be changed.** -/
structure Open (engine : Engine) : Prop where
  undisturbed : engine.Undisturbed
  informed : engine.Informed
  step : engine.step = .defining ∨ engine.step = .failed
  linked : engine.forest.Linked

/-- What an open engine is after it has answered. -/
structure Answered (engine : Engine) (answer : Bool) (after : Engine) : Prop where
  choices : after.choices = engine.choices
  minimizeCores : after.minimizeCores = engine.minimizeCores
  tree : Forest.SameTree engine.forest after.forest
  rules : ∀ id, after.forest.rule? id = engine.forest.rule? id
  undisturbed : after.Undisturbed
  settled : Forest.Settled after.choices after.forest
  informed : after.Informed
  positive : answer = true → after.step = .ready
  negative : answer = false → after.step = .failed ∧ ∃ core, after.lastConflict = .ok core ∧
    Forest.Explains after.choices after.forest after.minimizeCores core

theorem Open.answered (open' : engine.Open) {answer : Bool}
    (found : engine.hasSolution = (.ok answer, after)) : Answered engine answer after := by
  obtain ⟨judged, asked⟩ := open'.informed.hasSolution
  have tree := sameTree_hasSolution engine
  have still := open'.undisturbed.hasSolution.1
  rw [found] at judged asked tree still
  obtain ⟨choices, minimize, redefined⟩ := asked answer rfl
  obtain ⟨informed, positive, negative⟩ := judged
  refine ⟨choices, minimize, tree, redefined.rule?_eq, still, ?_, informed, ?_, ?_⟩
  · cases answer with
    | true => exact (informed.ready (positive rfl)).1
    | false =>
      obtain ⟨core, known⟩ := Option.isSome_iff_exists.mp (negative rfl).2
      exact (informed.conflict core known).2.2.1
  · rintro rfl
    exact positive rfl
  · rintro rfl
    obtain ⟨free, held⟩ := negative rfl
    obtain ⟨core, known⟩ := Option.isSome_iff_exists.mp held
    obtain ⟨step, _, _, explains⟩ := informed.conflict core known
    exact ⟨step, core, lastConflict_of_held free known step, explains⟩

/-- A positive answer is given again. -/
theorem Answered.again (answered : Answered engine true after) :
    after.hasSolution = (.ok true, after) := by
  unfold hasSolution
  rw [answered.undisturbed.free, answered.positive rfl]
  rfl

/-- **An open engine with settled rules always answers**, and leaves its rules alone. -/
theorem Open.answer (open' : engine.Open)
    (settled : Forest.Settled engine.choices engine.forest) :
    ∃ answer after, engine.hasSolution = (.ok answer, after) ∧ after.forest = engine.forest := by
  have inquiry := inquiry_hasSolution engine
  generalize engine.hasSolution = outcome at inquiry
  cases inquiry with
  | poisoned stopped => cases stopped.symm.trans open'.undisturbed.free
  | closed _ closed => exact absurd closed (Editable.not_closed open'.step)
  | ready _ ready => exact absurd ready (Editable.not_ready open'.step)
  | remembered => exact ⟨false, engine, rfl, rfl⟩
  | checked forest _ _ _ redefined _ =>
    obtain rfl := forest_of_fresh settled.fresh redefined
    have kept := (checkRules_kept engine).2.1
    have faults := open'.undisturbed.checkRules.2
    have rooted := mt (checkRules_fault_iff engine).mp (not_not.mpr settled.rooted)
    generalize engine.checkRules = outcome at kept faults rooted
    obtain ⟨error | answer, after⟩ := outcome
    · obtain ⟨fault, same⟩ := faults error rfl
      exact absurd ⟨fault, congrArg Except.error same⟩ rooted
    · exact ⟨answer, after, rfl, kept⟩

/-- After a conflict an optional rule can be removed, and the engine answers again. -/
theorem Answered.remove (answered : Answered engine false after) (linked : after.forest.Linked)
    {victim : RuleId} (registered : after.forest.contains victim = true) :
    ∃ removed next, after.removeRule victim = (.ok removed, next) ∧ next.Open ∧
      next.choices = after.choices ∧ next.minimizeCores = after.minimizeCores ∧
      next.forest = (after.forest.remove victim).2 ∧
      Forest.Settled next.choices next.forest := by
  obtain ⟨step, _⟩ := answered.negative rfl
  have free : after.editFault? .removeRule = none :=
    editFault?_eq_none_iff.mpr ⟨answered.undisturbed.free, .inr step⟩
  refine ⟨_, _, removeRule_eq free registered, ⟨answered.undisturbed.of_same rfl rfl, informed_of_open ?_ rfl, .inr step,
    linked.remove victim⟩, rfl, rfl, rfl,
    answered.settled.under (Forest.under_remove victim after.forest)⟩
  show after.step ≠ .ready
  rw [step]
  exact nofun

/-! ### Rounds -/

/-- **What one round of a diagnosis finds**: the forest as it is, the mandatory outermost rules of
the conflict, and the other ones that have not been given as causes before. -/
structure Finding where
  forest : Forest
  roots : List RuleId
  causes : List RuleId

namespace Finding

/-- The problem as it is shown. -/
def problem (table : ChoiceTable) (finding : Finding) : Problem :=
  finding.forest.problemOf table finding.roots finding.causes

/-- The rules that a finding is about: its causes, or the mandatory rules if there are none. -/
def blamed (finding : Finding) : List RuleId :=
  if finding.causes.isEmpty then finding.roots else finding.causes

/-- A conflict explains the finding. -/
def Explained (table : ChoiceTable) (minimal : Bool) (finding : Finding) : Prop :=
  ∃ core, Forest.Explains table finding.forest minimal core ∧
    (∀ root ∈ finding.roots, root ∈ outermost finding.forest core) ∧
    ∀ cause ∈ finding.causes, cause ∈ outermost finding.forest core

end Finding

/-- The mandatory outermost rules of a conflict. -/
def rootsOf (forest : Forest) (core : List RuleId) : List RuleId :=
  (outermost forest core).filter fun id => (forest.rule? id).any Rule.isMandatory

/-- The other outermost rules of a conflict. -/
def causesOf (forest : Forest) (core : List RuleId) : List RuleId :=
  (outermost forest core).filter fun id => !(forest.rule? id).any Rule.isMandatory

theorem topRule_of_mem_rootsOf {forest : Forest} (linked : forest.Linked) {core : List RuleId}
    (registered : ∀ id ∈ core, forest.contains id = true) :
    ∀ id ∈ rootsOf forest core, forest.TopRule true id := by
  intro id inside
  obtain ⟨listed, mandatory⟩ := List.mem_filter.mp inside
  have top := linked.topRule_of_mem_outermost registered listed
  rw [mandatory] at top
  exact top

theorem topRule_of_mem_causesOf {forest : Forest} (linked : forest.Linked) {core : List RuleId}
    (registered : ∀ id ∈ core, forest.contains id = true) :
    ∀ id ∈ causesOf forest core, forest.TopRule false id := by
  intro id inside
  obtain ⟨listed, optional⟩ := List.mem_filter.mp inside
  have top := linked.topRule_of_mem_outermost registered listed
  rw [Bool.not_eq_true'] at optional
  rw [optional] at top
  exact top

/-- The causes of a conflict that have not been given before. -/
def freshOf (reported : List RuleId) (forest : Forest) (core : List RuleId) : List RuleId :=
  (causesOf forest core).filter fun cause => !reported.contains cause

/-- What a round finds that removes a rule: nothing, if all its causes have been given before. -/
def findingsOf (reported : List RuleId) (forest : Forest) (core : List RuleId) : List Finding :=
  if (freshOf reported forest core).isEmpty then []
  else [⟨forest, rootsOf forest core, freshOf reported forest core⟩]

variable {reported : List RuleId}

theorem mem_freshOf {forest : Forest} {core : List RuleId} {id : RuleId} :
    id ∈ freshOf reported forest core ↔ id ∈ causesOf forest core ∧ id ∉ reported := by
  unfold freshOf
  rw [List.mem_filter]
  simp

/-- In the first round every cause is new. -/
theorem freshOf_nil (forest : Forest) (core : List RuleId) :
    freshOf [] forest core = causesOf forest core :=
  List.filter_eq_self.mpr fun _ _ => rfl

/-- Without a cause among them all outermost rules are mandatory. -/
theorem rootsOf_eq {forest : Forest} {core : List RuleId} (nothing : causesOf forest core = []) :
    rootsOf forest core = outermost forest core := by
  refine List.filter_eq_self.mpr fun id inside => ?_
  have kept := List.filter_eq_nil_iff.mp nothing id inside
  simpa using kept

theorem mem_findingsOf {forest : Forest} {core : List RuleId} {finding : Finding} :
    finding ∈ findingsOf reported forest core ↔ freshOf reported forest core ≠ [] ∧
      finding = ⟨forest, rootsOf forest core, freshOf reported forest core⟩ := by
  unfold findingsOf
  cases freshOf reported forest core with
  | nil => exact iff_of_false List.not_mem_nil fun some => some.1 rfl
  | cons id rest => exact List.mem_singleton.trans (and_iff_right (List.cons_ne_nil id rest)).symm

/-- A round blames its new causes. -/
theorem blamed_findingsOf (reported : List RuleId) (forest : Forest) (core : List RuleId) :
    (findingsOf reported forest core).flatMap Finding.blamed = freshOf reported forest core := by
  unfold findingsOf
  cases freshOf reported forest core with
  | nil => rfl
  | cons id rest => exact List.append_nil _

/-- The findings of a round are what it notes. -/
theorem map_problem_findingsOf (table : ChoiceTable) (reported : List RuleId) (forest : Forest)
    (core : List RuleId) (problems : List Problem) :
    problems.reverse ++ (findingsOf reported forest core).map (Finding.problem table) =
      (if !(freshOf reported forest core).isEmpty then
        forest.problemOf table (rootsOf forest core) (freshOf reported forest core) :: problems
      else problems).reverse := by
  unfold findingsOf
  cases (freshOf reported forest core).isEmpty with
  | true => exact List.append_nil _
  | false => exact List.reverse_cons.symm

/-- **What some rounds of a diagnosis have removed and found**, by what had been given as causes
before and how the engine ended. -/
structure Account (asked : Engine) (reported victims : List RuleId) (findings : List Finding)
    (after : Engine) : Prop where
  choices : after.choices = asked.choices
  forest : after.forest = asked.forest.without victims
  optional : ∀ victim ∈ victims, asked.forest.TopRule false victim
  /-- Each finding is about the rules that were left at the time. -/
  timely : ∀ finding ∈ findings, ∃ earlier, earlier <+: victims ∧
    finding.forest = asked.forest.without earlier
  explained : ∀ finding ∈ findings, finding.Explained asked.choices asked.minimizeCores
  roots : ∀ finding ∈ findings, ∀ root ∈ finding.roots, asked.forest.TopRule true root
  causes : ∀ finding ∈ findings, ∀ cause ∈ finding.causes,
    asked.forest.TopRule false cause ∧ cause ∉ reported
  nonempty : ∀ finding ∈ findings, finding.blamed ≠ []
  once : (findings.flatMap Finding.blamed).Nodup
  /-- The rules that are left can hold together, or mandatory ones cannot. -/
  ends : after.hasSolution = (.ok true, after) ∨ ∃ core, after.lastConflict = .ok core ∧
    ∀ id ∈ core, after.forest.TopRule true (after.forest.topLevel id)

variable {asked : Engine}

/-- Rules that can hold together need no account. -/
theorem Answered.account_nil (answered : Answered engine true asked) (reported : List RuleId) :
    Account asked reported [] [] asked where
  choices := rfl
  forest := rfl
  optional _ inside := absurd inside List.not_mem_nil
  timely _ inside := absurd inside List.not_mem_nil
  explained _ inside := absurd inside List.not_mem_nil
  roots _ inside := absurd inside List.not_mem_nil
  causes _ inside := absurd inside List.not_mem_nil
  nonempty _ inside := absurd inside List.not_mem_nil
  once := List.nodup_nil
  ends := .inl answered.again

/-- **A conflict of mandatory rules alone is the last finding.** -/
theorem account_last {core : List RuleId} (conflict : asked.lastConflict = .ok core)
    (explains : Forest.Explains asked.choices asked.forest asked.minimizeCores core)
    (required : ∀ id ∈ outermost asked.forest core, asked.forest.TopRule true id) :
    Account asked reported [] [⟨asked.forest, outermost asked.forest core, []⟩] asked where
  choices := rfl
  forest := rfl
  optional _ inside := absurd inside List.not_mem_nil
  timely finding inside := by
    rw [List.mem_singleton.mp inside]
    exact ⟨[], List.nil_prefix, rfl⟩
  explained finding inside := by
    rw [List.mem_singleton.mp inside]
    exact ⟨core, explains, fun _ member => member, fun _ member => absurd member List.not_mem_nil⟩
  roots finding inside := by
    rw [List.mem_singleton.mp inside]
    exact required
  causes finding inside := by
    rw [List.mem_singleton.mp inside]
    exact fun _ member => absurd member List.not_mem_nil
  nonempty finding inside := by
    rw [List.mem_singleton.mp inside]
    intro empty
    obtain ⟨id, member⟩ := List.exists_mem_of_ne_nil core explains.nonempty
    have listed : asked.forest.topLevel id ∈ outermost asked.forest core :=
      Forest.mem_outermost.mpr ⟨id, member, rfl⟩
    have nothing : outermost asked.forest core = [] := empty
    rw [nothing] at listed
    exact List.not_mem_nil listed
  once := by
    rw [List.flatMap_cons, List.flatMap_nil, List.append_nil]
    exact Forest.nodup_outermost asked.forest core
  ends := .inr ⟨core, conflict, fun id member =>
    required _ (Forest.mem_outermost.mpr ⟨id, member, rfl⟩)⟩

/-- **A round that removes a rule stands before the account of the later ones.** -/
theorem Account.round {next : Engine} {victim : RuleId} {victims core : List RuleId}
    {findings : List Finding}
    (account : Account next (reported ++ freshOf reported asked.forest core) victims findings after)
    (choices : next.choices = asked.choices) (minimize : next.minimizeCores = asked.minimizeCores)
    (forest : next.forest = (asked.forest.remove victim).2) (linked : asked.forest.Linked)
    (explains : Forest.Explains asked.choices asked.forest asked.minimizeCores core)
    (cause : victim ∈ causesOf asked.forest core) :
    Account asked reported (victim :: victims)
      (findingsOf reported asked.forest core ++ findings) after := by
  have roots := topRule_of_mem_rootsOf linked explains.registered
  have causes := topRule_of_mem_causesOf linked explains.registered
  have back : ∀ {mandatory id}, next.forest.TopRule mandatory id →
      asked.forest.TopRule mandatory id := by
    intro mandatory id top
    rw [forest] at top
    exact top.of_remove
  refine ⟨account.choices.trans choices, ?_, ?_, ?_, ?_, ?_, ?_, ?_, ?_, account.ends⟩
  · rw [account.forest, forest]
    rfl
  · exact List.forall_mem_cons.mpr ⟨causes victim cause, fun other inside =>
      back (account.optional other inside)⟩
  · refine List.forall_mem_append.mpr ⟨fun finding inside => ?_, fun finding inside => ?_⟩
    · rw [(mem_findingsOf.mp inside).2]
      exact ⟨[], List.nil_prefix, rfl⟩
    · obtain ⟨earlier, before, same⟩ := account.timely finding inside
      refine ⟨victim :: earlier, List.prefix_cons_inj victim |>.mpr before, ?_⟩
      rw [same, forest]
      rfl
  · refine List.forall_mem_append.mpr ⟨fun finding inside => ?_, fun finding inside => ?_⟩
    · rw [(mem_findingsOf.mp inside).2]
      exact ⟨core, explains, fun root listed => (List.mem_filter.mp listed).1,
        fun id listed => (List.mem_filter.mp (mem_freshOf.mp listed).1).1⟩
    · rw [← choices, ← minimize]
      exact account.explained finding inside
  · refine List.forall_mem_append.mpr ⟨fun finding inside => ?_, fun finding inside root listed =>
      back (account.roots finding inside root listed)⟩
    rw [(mem_findingsOf.mp inside).2]
    exact roots
  · refine List.forall_mem_append.mpr ⟨fun finding inside id listed => ?_,
      fun finding inside id listed => ?_⟩
    · rw [(mem_findingsOf.mp inside).2] at listed
      exact ⟨causes id (mem_freshOf.mp listed).1, (mem_freshOf.mp listed).2⟩
    · obtain ⟨top, unknown⟩ := account.causes finding inside id listed
      exact ⟨back top, fun known => unknown (List.mem_append_left _ known)⟩
  · refine List.forall_mem_append.mpr ⟨fun finding inside => ?_, account.nonempty⟩
    obtain ⟨some, same⟩ := mem_findingsOf.mp inside
    rw [same]
    unfold Finding.blamed
    rw [if_neg fun none => some (List.isEmpty_iff.mp none)]
    exact some
  · rw [List.flatMap_append, blamed_findingsOf]
    refine List.nodup_append.mpr
      ⟨((Forest.nodup_outermost _ _).filter _).filter _, account.once, ?_⟩
    intro id fresh other later equal
    rw [← equal] at later
    obtain ⟨finding, inside, blames⟩ := List.mem_flatMap.mp later
    -- later on it is neither a cause, being reported, nor a root, not being mandatory
    unfold Finding.blamed at blames
    split at blames
    · exact (back (account.roots finding inside id blames)).unlike
        (causes id (mem_freshOf.mp fresh).1)
    · exact (account.causes finding inside id blames).2 (List.mem_append_right _ fresh)

/-- A round that meets a conflict: it notes a problem, and removes a rule if it can, unless there are
as many problems as asked for. -/
theorem diagnoseRounds_conflict (limit : Option Nat) (rounds : Nat) (reported : List RuleId)
    (problems : List Problem) (found : engine.hasSolution = (.ok false, asked))
    {core : List RuleId} (conflict : asked.lastConflict = .ok core) {problems' : List Problem}
    (noted : problems' =
      if !(freshOf reported asked.forest core).isEmpty || (causesOf asked.forest core).isEmpty then
        asked.forest.problemOf asked.choices (rootsOf asked.forest core)
          (freshOf reported asked.forest core) :: problems
      else problems) :
    engine.diagnoseRounds limit (rounds + 1) reported problems =
      if limit.any (· ≤ problems'.length) then (.ok problems'.reverse, asked)
      else
        match asked.forest.pickRemoval (causesOf asked.forest core) with
        | none => (.ok problems'.reverse, asked)
        | some victim =>
          match asked.removeRule victim with
          | (.error error, next) => (.error error, next)
          | (.ok _, next) =>
            next.diagnoseRounds limit rounds (reported ++ freshOf reported asked.forest core)
              problems' := by
  have parts : (outermost asked.forest core).partition
      (fun id => (asked.forest.rule? id).any Rule.isMandatory) =
      (rootsOf asked.forest core, causesOf asked.forest core) :=
    List.partition_eq_filter_filter
  have fresh : (causesOf asked.forest core).filter (fun cause => !reported.contains cause) =
      freshOf reported asked.forest core := rfl
  conv_lhs => unfold diagnoseRounds
  rw [found]
  dsimp only
  rw [conflict]
  dsimp only
  rw [parts]
  dsimp only
  rewrite [fresh, ← noted]
  rfl

/-- **More rounds than rules are enough**: they end with rules that can hold together, or with a
conflict of mandatory rules, and account for what they remove. -/
theorem diagnoseRounds_account (rounds : Nat) (reported : List RuleId) (problems : List Problem)
    (engine : Engine) (open' : engine.Open) {answer : Bool}
    (found : engine.hasSolution = (.ok answer, asked)) (enough : asked.forest.size < rounds) :
    ∃ victims findings after,
      engine.diagnoseRounds none rounds reported problems =
        (.ok (problems.reverse ++ findings.map (Finding.problem asked.choices)), after) ∧
      Account asked reported victims findings after ∧
      (answer = true → findings = []) ∧ (answer = false → reported = [] → findings ≠ []) := by
  induction rounds generalizing reported problems engine asked answer with
  | zero => omega
  | succ rounds ih =>
    have answered := open'.answered found
    have linked := open'.linked.of_sameTree answered.tree
    cases answer with
    | true =>
      refine ⟨[], [], asked, ?_, answered.account_nil reported, fun _ => rfl,
        fun negative => absurd negative.symm Bool.false_ne_true⟩
      unfold diagnoseRounds
      rw [found, List.map_nil, List.append_nil]
    | false =>
      obtain ⟨_, core, conflict, explains⟩ := answered.negative rfl
      have causes := topRule_of_mem_causesOf linked explains.registered
      rw [diagnoseRounds_conflict none rounds reported problems found conflict rfl,
        Option.any_none, if_neg Bool.false_ne_true]
      cases picked : asked.forest.pickRemoval (causesOf asked.forest core) with
      | none =>
        have nothing : causesOf asked.forest core = [] :=
          List.eq_nil_iff_forall_not_mem.mpr fun id inside =>
            Forest.pickRemoval_none picked id inside (causes id inside)
        have fresh : freshOf reported asked.forest core = [] := by
          unfold freshOf
          rw [nothing, List.filter_nil]
        have roots := topRule_of_mem_rootsOf linked explains.registered
        have required := rootsOf_eq nothing
        rw [required] at roots
        refine ⟨[], [⟨asked.forest, outermost asked.forest core, []⟩], asked, ?_,
          account_last conflict explains roots,
          fun positive => absurd positive Bool.false_ne_true, fun _ _ => List.cons_ne_nil _ _⟩
        dsimp only
        rw [nothing, fresh, required, List.isEmpty_nil, Bool.or_true, if_pos rfl,
          List.reverse_cons]
        rfl
      | some victim =>
        have cause := Forest.pickRemoval_mem picked
        obtain ⟨removed, next, done, open'', choices, minimize, forest, settled⟩ :=
          answered.remove linked (causes victim cause).registered
        obtain ⟨answer', asked', found', kept⟩ := open''.answer settled
        have answered' := open''.answered found'
        have fewer := linked.size_remove (causes victim cause).registered
        rw [← forest, ← kept] at fewer
        have some : (causesOf asked.forest core).isEmpty = false :=
          Bool.eq_false_iff.mpr fun none => List.ne_nil_of_mem cause (List.isEmpty_iff.mp none)
        rw [some, Bool.or_false]
        dsimp only
        rw [done]
        dsimp only
        obtain ⟨victims, findings, after, result, account, _⟩ := ih
          (reported ++ freshOf reported asked.forest core)
          (if !(freshOf reported asked.forest core).isEmpty then
            asked.forest.problemOf asked.choices (rootsOf asked.forest core)
              (freshOf reported asked.forest core) :: problems
          else problems) next open'' found' (by omega)
        have same := answered'.choices.trans choices
        refine ⟨victim :: victims, findingsOf reported asked.forest core ++ findings, after, ?_,
          account.round same (answered'.minimizeCores.trans minimize) (kept.trans forest) linked
            explains cause,
          fun positive => absurd positive Bool.false_ne_true, fun _ first => ?_⟩
        · rw [result, same, List.map_append, ← List.append_assoc, map_problem_findingsOf]
        · unfold findingsOf
          rw [first, freshOf_nil, some, if_neg Bool.false_ne_true]
          exact List.cons_ne_nil _ _

/-! ### Whole diagnoses -/

/-- The causes of findings are among what they blame. -/
theorem causes_sublist (findings : List Finding) :
    (findings.flatMap Finding.causes).Sublist (findings.flatMap Finding.blamed) := by
  induction findings with
  | nil => exact .slnil
  | cons finding rest ih =>
    refine List.Sublist.append ?_ ih
    unfold Finding.blamed
    split
    · next none =>
      rw [List.isEmpty_iff.mp none]
      exact List.nil_sublist _
    · exact .refl _

/-- Findings that blame distinct rules are no more than those. -/
theorem length_le_blamed {findings : List Finding}
    (nonempty : ∀ finding ∈ findings, finding.blamed ≠ []) :
    findings.length ≤ (findings.flatMap Finding.blamed).length := by
  induction findings with
  | nil => exact Nat.zero_le _
  | cons finding rest ih =>
    obtain ⟨here, later⟩ := List.forall_mem_cons.mp nonempty
    have some := List.length_pos_of_ne_nil here
    have rest' := ih later
    rw [List.flatMap_cons, List.length_append, List.length_cons]
    omega

/-- What findings blame are registered rules without a parent. -/
theorem Account.blames {victims : List RuleId} {findings : List Finding}
    (account : Account asked reported victims findings after) :
    ∀ id ∈ findings.flatMap Finding.blamed, asked.forest.contains id = true := by
  intro id inside
  obtain ⟨finding, listed, blames⟩ := List.mem_flatMap.mp inside
  unfold Finding.blamed at blames
  split at blames
  · exact (account.roots finding listed id blames).registered
  · exact (account.causes finding listed id blames).1.registered

/-- **A diagnosis ends and accounts for what it removes.** For an engine in use that may still be
changed, that nothing disturbs, and that answers whether its rules can hold together, a diagnosis
without a limit gives problems, and:

* afterwards the rules that are left can hold together, or the last conflict has only rules whose
  outermost rule is mandatory;
* there is no problem just when the answer was positive, that is, when some values of the registered
  roots satisfy the rules as they were at the start;
* there are no more problems than rules;
* each problem is a finding about the rules that were left at the time, explained by a conflict of
  them, and no outermost rule is a cause in two findings;
* what is missing afterwards are just the whole trees of some outermost rules that are not
  mandatory, and all other rules are what they were. -/
theorem diagnose_accounts (inUse : engine.InUse)
    (open' : engine.step = .defining ∨ engine.step = .failed) (undisturbed : engine.Undisturbed)
    {answer : Bool} (answered : engine.hasSolution.1 = .ok answer) :
    ∃ problems after, engine.diagnose none = (.ok problems, after) ∧
      (after.hasSolution.1 = .ok true ∨ ∃ core, after.lastConflict = .ok core ∧ ∀ id ∈ core,
        ∃ choice, after.forest.rule? (after.forest.topLevel id) = some (.mandatory choice)) ∧
      (problems = [] ↔ answer = true) ∧
      (answer = true ↔ Forest.Satisfiable engine.choices engine.hasSolution.2.forest) ∧
      problems.length ≤ engine.forest.size ∧
      ∃ (victims : List RuleId) (findings : List Finding),
        problems = findings.map (Finding.problem engine.choices) ∧
        (∀ finding ∈ findings, finding.Explained engine.choices engine.minimizeCores ∧
          ∃ earlier, earlier <+: victims ∧
            finding.forest = engine.hasSolution.2.forest.without earlier) ∧
        (∀ finding ∈ findings, ∀ cause ∈ finding.causes, engine.forest.TopRule false cause) ∧
        (findings.flatMap Finding.causes).Nodup ∧
        (∀ victim ∈ victims, engine.forest.TopRule false victim) ∧
        (∀ id, engine.forest.contains id = true → (after.forest.contains id = false ↔
          ∃ victim ∈ victims, id ∈ engine.forest.subtree victim)) ∧
        ∀ id, after.forest.contains id = true → engine.forest.contains id = true ∧
          after.forest.rule? id = engine.forest.rule? id ∧
          after.forest.parent? id = engine.forest.parent? id := by
  have linked := inUse.linked
  have known : engine.Open := ⟨undisturbed, inUse.informed_prepared.1, open', linked⟩
  have found : engine.hasSolution = (.ok answer, engine.hasSolution.2) := Prod.ext answered rfl
  obtain ⟨choices, minimize, tree, rules, _, _, informed, positive, negative⟩ :=
    known.answered found
  have linked' := linked.of_sameTree tree
  have size := Forest.size_congr tree.contains
  obtain ⟨victims, findings, after, result, account, feasible, conflict⟩ :=
    diagnoseRounds_account (engine.forest.active + 1) [] [] engine known found
      (by rw [inUse.counted]; omega)
  have tops : ∀ victim ∈ victims, engine.forest.TopRule false victim :=
    fun victim inside => (account.optional victim inside).of_sameTree tree rules
  have left := fun id => linked'.without_spec
    (fun victim inside => (account.optional victim inside).outer) id
  rw [← account.forest] at left
  have trees : ∀ id, engine.forest.contains id = true → ∀ victim ∈ victims,
      (id ∈ engine.hasSolution.2.forest.subtree victim ↔ id ∈ engine.forest.subtree victim) := by
    intro id registered victim inside
    have top := tops victim inside
    have top' := account.optional victim inside
    rw [linked.mem_subtree_outermost top.outer top.registered,
      linked'.mem_subtree_outermost top'.outer top'.registered, tree.contains,
      tree.topLevel_eq linked]
  refine ⟨findings.map (Finding.problem engine.hasSolution.2.choices), after, result, ?_, ?_, ?_,
    ?_, victims, findings, by rw [choices], fun finding inside => ⟨?_, ?_⟩, ?_, ?_, tops, ?_, ?_⟩
  · refine account.ends.imp (fun again => congrArg Prod.fst again) ?_
    rintro ⟨core, conflict, mandatory⟩
    exact ⟨core, conflict, fun id inside => (mandatory id inside).mandatory⟩
  · rw [List.map_eq_nil_iff]
    refine ⟨fun none => ?_, feasible⟩
    cases answer with
    | true => rfl
    | false => exact absurd none (conflict rfl rfl)
  · rw [← choices]
    cases answer with
    | true => exact iff_of_true rfl (informed.ready (positive rfl)).2
    | false =>
      obtain ⟨_, core, _, explains⟩ := negative rfl
      exact iff_of_false Bool.false_ne_true explains.not_satisfiable
  · rw [List.length_map, ← size]
    exact Nat.le_trans (length_le_blamed account.nonempty)
      (Forest.length_le_size account.once account.blames)
  · rw [← choices, ← minimize]
    exact account.explained finding inside
  · exact account.timely finding inside
  · exact fun finding inside cause listed =>
      (account.causes finding inside cause listed).1.of_sameTree tree rules
  · exact account.once.sublist (causes_sublist findings)
  · intro id registered
    have outside : (∀ victim ∈ victims, id ∉ engine.hasSolution.2.forest.subtree victim) ↔
        ∀ victim ∈ victims, id ∉ engine.forest.subtree victim :=
      forall₂_congr fun victim inside => not_congr (trees id registered victim inside)
    rw [← Bool.not_eq_true, (left id).1, tree.contains, and_iff_right registered, outside]
    simp
  · intro id stays
    obtain ⟨rule, parent⟩ := (left id).2 stays
    refine ⟨?_, rule.trans (rules id), parent.trans (tree.parent id)⟩
    rw [← tree.contains]
    exact ((left id).1.mp stays).1

/-- The engine of rivals, whose last rule has a part. -/
def partedEngine : Engine :=
  (rivalEngine.addRule (.dependsAny 3 [1, 2] none) (some 3)).2

theorem inUse_partedEngine : partedEngine.InUse :=
  .perform (.addRule _ _) inUse_rivalEngine

/-- Diagnosing the rivals, the rule that sets them against each other and its part gives problems,
no more than there are rules. -/
theorem diagnose_accounts_of_parted :
    partedEngine.hasSolution.1 = .ok false ∧ ∃ problems after,
      partedEngine.diagnose none = (.ok problems, after) ∧ problems ≠ [] ∧ problems.length ≤ 5 := by
  have idle : partedEngine.Idle :=
    ⟨by decide +kernel, by decide +kernel, by decide +kernel, by decide +kernel⟩
  have step : partedEngine.step = .defining ∨ partedEngine.step = .failed :=
    .inl (by decide +kernel)
  have denied : partedEngine.hasSolution.1 = .ok false := by decide +kernel
  have size : partedEngine.forest.size = 5 := by decide +kernel
  obtain ⟨problems, after, result, _, feasible, _, few, _⟩ :=
    diagnose_accounts inUse_partedEngine step idle.undisturbed denied
  exact ⟨denied, problems, after, result, fun none =>
    absurd (feasible.mp none) Bool.false_ne_true, size ▸ few⟩

end Engine

end Loadout
