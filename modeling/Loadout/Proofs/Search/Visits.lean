/-
**What a visit to a watching clause does.**

While the clauses that watch a false literal are visited, their list is detached from the table; the
nodes that stay and those still to be visited stand in for it (`Solver.view`). A visit first puts
the false literal in the second place of its clause (`Solver.Visiting`), and keeps all invariants
with the list as it then is:

* `Visiting.stays`, `Visiting.forces`: a node that stays belongs to a clause with a true literal;
* `Visiting.leaves`: a clause that watches another literal leaves the list;
* `Visiting.conflicts`: a conflict is a clause whose literals are all false.

`visitClause_spec` puts the ways in which a visit can go together, and `visitClauses_spec` follows a
whole list.
-/

import Loadout.Proofs.Search.Progress

namespace Loadout

namespace Solver

variable {solver : Solver}

/-! ### Finding another literal to watch -/

/-- The literal found is not false, and the clause is permuted. -/
theorem exchange_some {trail : Trail} {parked found : Literal} {list others : List Literal}
    (exchanged : exchange trail parked list = some (found, others)) :
    trail.isFalse found = false ∧ (parked :: list).Perm (found :: others) := by
  induction list generalizing others with
  | nil => cases exchanged
  | cons head rest ih =>
    unfold exchange at exchanged
    by_cases isFalse : trail.isFalse head = true
    · rw [if_pos isFalse, Option.map_eq_some_iff] at exchanged
      obtain ⟨⟨found', others'⟩, inner, same⟩ := exchanged
      cases same
      obtain ⟨notFalse, perm⟩ := ih inner
      exact ⟨notFalse,
        (List.Perm.swap _ _ _).trans ((perm.cons head).trans (List.Perm.swap _ _ _))⟩
    · rw [if_neg isFalse] at exchanged
      cases exchanged
      exact ⟨by simpa using isFalse, List.Perm.swap _ _ _⟩

/-- Without another literal all are false. -/
theorem exchange_none {trail : Trail} {parked : Literal} {list : List Literal}
    (exchanged : exchange trail parked list = none) :
    ∀ literal ∈ list, trail.isFalse literal = true := by
  induction list with
  | nil => exact fun literal inside => by cases inside
  | cons head rest ih =>
    unfold exchange at exchanged
    by_cases isFalse : trail.isFalse head = true
    · rw [if_pos isFalse, Option.map_eq_none_iff] at exchanged
      intro literal inside
      rcases List.mem_cons.mp inside with here | later
      · rw [here]
        exact isFalse
      · exact ih exchanged literal later
    · rw [if_neg isFalse] at exchanged
      cases exchanged

/-! ### The lists of watchers along a visit -/

/-- The lists of watchers, with some nodes standing in for the list of one literal. -/
def view (literal : Literal) (nodes : List WatchNode) (table : WatchTable) (other : Literal) :
    List WatchNode :=
  if other = literal then nodes else table.watching other

theorem view_self (literal : Literal) (nodes : List WatchNode) (table : WatchTable) :
    view literal nodes table literal = nodes := if_pos rfl

theorem view_of_ne {literal other : Literal} (different : other ≠ literal)
    (nodes : List WatchNode) (table : WatchTable) :
    view literal nodes table other = table.watching other := if_neg different

variable {falseLiteral keeper fresh : Literal} {before after : List WatchNode} {node : WatchNode}
  {first second : Literal} {rest : List Literal}

/-- A node among others is in the list of one literal only. -/
theorem mem_view_insert {table : WatchTable} {literal : Literal} {other : WatchNode} :
    other ∈ view falseLiteral (before ++ node :: after) table literal ↔
      literal = falseLiteral ∧ other = node ∨
        other ∈ view falseLiteral (before ++ after) table literal := by
  by_cases here : literal = falseLiteral
  · subst here
    simp only [view_self, List.mem_append, List.mem_cons, true_and]
    exact or_left_comm
  · simp only [view_of_ne here, here, false_and, false_or]

/-- A node that is added to the list of another literal comes last there. -/
theorem view_watch (apart : fresh ≠ falseLiteral) (nodes : List WatchNode) (table : WatchTable)
    (moved : WatchNode) (literal : Literal) :
    view falseLiteral nodes (table.watch fresh moved) literal =
      view falseLiteral nodes table literal ++ if literal = fresh then [moved] else [] := by
  by_cases here : literal = falseLiteral
  · rw [here, view_self, view_self, if_neg apart.symm, List.append_nil]
  · rw [view_of_ne here, view_of_ne here, WatchTable.watching_watch]
    by_cases there : literal = fresh
    · rw [if_pos there, if_pos there, there]
    · rw [if_neg there, if_neg there, List.append_nil]

/-- The watchers depend on the constraints and on the views of the table alone. -/
theorem Attached.of_view {watching other : Literal → List WatchNode}
    (attached : solver.Attached watching) (same : ∀ literal, other literal = watching literal) :
    solver.Attached other := by
  rw [show other = watching from funext same]
  exact attached

/-- A clause is in the list of a literal only when it watches it. -/
theorem Attached.watches {watching : Literal → List WatchNode}
    (attached : solver.Attached watching) {literal : Literal} (listed : node ∈ watching literal)
    (found : solver.constraints[node.constraint]? = some (.clause (first :: second :: rest))) :
    (literal = first ∨ literal = second) ∧ node.blocker ∈ first :: second :: rest := by
  obtain ⟨_, _, _, there, watched, blocked⟩ := attached.watcher literal node listed
  rw [found] at there
  cases there
  exact ⟨watched, blocked⟩

/-- A node may take any literal of its clause as its blocker. -/
theorem Attached.setBlocker
    (attached : solver.Attached (view falseLiteral (before ++ node :: after) solver.watches))
    (found : solver.constraints[node.constraint]? = some (.clause (first :: second :: rest)))
    {blocker : Literal} (inside : blocker ∈ first :: second :: rest) :
    solver.Attached (view falseLiteral (before ++ { node with blocker } :: after)
      solver.watches) where
  watcher literal other member := by
    rcases mem_view_insert.mp member with ⟨here, rfl⟩ | old
    · have listed := attached.watches (mem_view_insert.mpr (.inl ⟨here, rfl⟩)) found
      exact ⟨first, second, rest, found, listed.1, inside⟩
    · exact attached.watcher literal other (mem_view_insert.mpr (.inr old))
  watched id one two others there literal watched := by
    obtain ⟨other, member, same⟩ := attached.watched id one two others there literal watched
    rcases mem_view_insert.mp member with ⟨here, rfl⟩ | old
    · exact ⟨_, mem_view_insert.mpr (.inl ⟨here, rfl⟩), same⟩
    · exact ⟨other, mem_view_insert.mpr (.inr old), same⟩
  once literal := by
    have distinct := attached.once literal
    by_cases here : literal = falseLiteral
    · subst here
      rw [view_self] at distinct ⊢
      simpa using distinct
    · rw [view_of_ne here] at distinct ⊢
      exact distinct
  mentioned := attached.mentioned

/-! ### A visit under way -/

/-- **A visit under way**: the clause of a node has the false literal in its second place, and keeps
watching the first one. -/
structure Visiting (done : Nat) (falseLiteral keeper : Literal) (before after : List WatchNode)
    (node : WatchNode) (rest : Clause) (solver : Solver) : Prop where
  core : solver.Core done
  attached : solver.Attached (view falseLiteral (before ++ node :: after) solver.watches)
  isFalse : solver.trail.isFalse falseLiteral = true
  found : solver.constraints[node.constraint]? = some (.clause (keeper :: falseLiteral :: rest))

/-- What is known after a visit, by its result. -/
def VisitOutcome (falseLiteral : Literal) (before after : List WatchNode) (node : WatchNode)
    (solver : Solver) : Visit → Prop
  | .stays kept =>
    solver.Attached (view falseLiteral (before ++ kept :: after) solver.watches) ∧
      solver.HasTrue kept.constraint
  | .leaves => solver.Attached (view falseLiteral (before ++ after) solver.watches)
  | .conflicts failed =>
    failed = node ∧
      solver.Attached (view falseLiteral (before ++ node :: after) solver.watches) ∧
      solver.AllFalse node.constraint falseLiteral

/-- **What a visit leads to**: progress that keeps the invariants, and what is known then. -/
structure Visited (done : Nat) (falseLiteral : Literal) (before after : List WatchNode)
    (node : WatchNode) (old : Solver) (result : Visit × Solver) : Prop where
  progress : Progress old result.2
  core : result.2.Core done
  unlisted : result.2.watches.watching falseLiteral = old.watches.watching falseLiteral
  outcome : result.2.VisitOutcome falseLiteral before after node result.1

/-- A visit may first reorder the clause. -/
theorem Visited.behind {done : Nat} {middle : Solver} {result : Visit × Solver}
    (visited : Visited done falseLiteral before after node middle result)
    (progress : Progress solver middle) (watches : middle.watches = solver.watches) :
    Visited done falseLiteral before after node solver result where
  progress := progress.trans visited.progress
  core := visited.core
  unlisted := by rw [visited.unlisted, watches]
  outcome := visited.outcome

namespace Visiting

variable {done : Nat}

theorem different (visiting : solver.Visiting done falseLiteral keeper before after node rest) :
    keeper ≠ falseLiteral := by
  intro same
  have distinct := visiting.core.grounded.distinct _ _ visiting.found
  exact (List.nodup_cons.mp distinct).1 (by rw [same]; exact List.mem_cons_self)

/-- No other node of the false literal belongs to the clause. -/
theorem elsewhere (visiting : solver.Visiting done falseLiteral keeper before after node rest)
    {other : WatchNode} (inside : other ∈ before ++ after) :
    other.constraint ≠ node.constraint := by
  have distinct := visiting.attached.once falseLiteral
  rw [view_self, List.map_append, List.map_cons, List.nodup_middle, ← List.map_append] at distinct
  exact fun same => (List.nodup_cons.mp distinct).1 (same ▸ List.mem_map_of_mem inside)

/-! ### The clause goes on watching -/

/-- A clause whose other literal is true is passed over. -/
theorem stays (visiting : solver.Visiting done falseLiteral keeper before after node rest)
    (keeperTrue : solver.trail.isTrue keeper = true) :
    Visited done falseLiteral before after node solver
      (.stays { node with blocker := keeper }, solver) where
  progress := Progress.refl solver
  core := visiting.core
  unlisted := rfl
  outcome := ⟨visiting.attached.setBlocker visiting.found List.mem_cons_self, _, visiting.found,
    keeper, List.mem_cons_self, keeperTrue⟩

/-- Without another literal to watch, all literals but the one that is kept are false. -/
theorem isFalse_of_ne (visiting : solver.Visiting done falseLiteral keeper before after node rest)
    (stuck : exchange solver.trail falseLiteral rest = none) {literal : Literal}
    (inside : literal ∈ keeper :: falseLiteral :: rest) (different : literal ≠ keeper) :
    solver.trail.isFalse literal = true := by
  rcases List.mem_cons.mp inside with here | inside
  · exact absurd here different
  · rcases List.mem_cons.mp inside with rfl | inside
    · exact visiting.isFalse
    · exact exchange_none stuck literal inside

/-- A clause without a literal that is not false is in conflict. -/
theorem conflicts (visiting : solver.Visiting done falseLiteral keeper before after node rest)
    (stuck : exchange solver.trail falseLiteral rest = none)
    (keeperFalse : solver.trail.isFalse keeper = true) :
    Visited done falseLiteral before after node solver (.conflicts node, solver) where
  progress := Progress.refl solver
  core := visiting.core
  unlisted := rfl
  outcome := by
    refine ⟨rfl, visiting.attached, _, visiting.found,
      List.mem_cons_of_mem _ List.mem_cons_self, fun literal inside => ?_⟩
    by_cases here : literal = keeper
    · rw [here]
      exact keeperFalse
    · exact visiting.isFalse_of_ne stuck inside here

/-- A clause with one literal that is not false forces it. -/
theorem forces (visiting : solver.Visiting done falseLiteral keeper before after node rest)
    (stuck : exchange solver.trail falseLiteral rest = none)
    (notTrue : solver.trail.isTrue keeper ≠ true) (notFalse : solver.trail.isFalse keeper ≠ true) :
    Visited done falseLiteral before after node solver
      (.stays node, solver.push keeper node.constraint) := by
  have uses := visiting.core.grounded.stored _ _ visiting.found keeper List.mem_cons_self
  have undecided : solver.trail.record? keeper.atom = none := by
    cases recorded : solver.trail.record? keeper.atom with
    | none => rfl
    | some entry =>
      rcases Trail.isTrue_or_isFalse recorded with isTrue | isFalse
      · exact absurd isTrue notTrue
      · exact absurd isFalse notFalse
  have forced : Stored.Forces solver.trail keeper solver.trail.length
      (.clause (keeper :: falseLiteral :: rest)) := by
    refine ⟨List.mem_cons_self, fun other inside different => ?_⟩
    rw [trueBefore_length visiting.core.grounded.coherent, ← Trail.isFalse_eq]
    exact visiting.isFalse_of_ne stuck inside different
  have decided : (solver.push keeper node.constraint).trail.isTrue keeper = true := by
    refine Trail.isTrue_iff.mpr ⟨solver.trail.nextEntry keeper (some node.constraint), ?_, rfl⟩
    show (solver.trail.push keeper (some node.constraint)).record? keeper.atom = _
    rw [Trail.record?_push _ undecided, if_pos rfl]
  exact ⟨Progress.push visiting.core.grounded uses node.constraint,
    visiting.core.push uses visiting.found fun _ => forced, rfl,
    visiting.attached.congr rfl fun _ => rfl, _, visiting.found, keeper, List.mem_cons_self,
    decided⟩

/-! ### The clause watches another literal -/

/-- **A clause that watches another literal instead leaves the list of the false one.** -/
theorem rewatch (visiting : solver.Visiting done falseLiteral keeper before after node rest)
    {others : Clause} (apart : fresh ≠ falseLiteral) (unkept : fresh ≠ keeper)
    (perm : (keeper :: falseLiteral :: rest).Perm (keeper :: fresh :: others)) :
    Solver.Attached (view falseLiteral (before ++ after)
        (solver.watches.watch fresh ⟨node.constraint, keeper⟩))
      (solver.replaceClause node.constraint (keeper :: fresh :: others)) where
  watcher literal other member := by
    rw [view_watch apart, List.mem_append] at member
    rw [getElem?_replaceClause visiting.found]
    rcases member with old | new
    · have listed : other ∈ view falseLiteral (before ++ node :: after) solver.watches literal :=
        mem_view_insert.mpr (.inr old)
      by_cases same : other.constraint = node.constraint
      · obtain ⟨watched, blocked⟩ := visiting.attached.watches listed (same ▸ visiting.found)
        have here : literal ≠ falseLiteral := by
          rintro rfl
          rw [view_self] at old
          exact visiting.elsewhere old same
        rw [if_pos same]
        exact ⟨keeper, fresh, others, rfl, .inl (watched.resolve_right here),
          perm.mem_iff.mp blocked⟩
      · rw [if_neg same]
        exact visiting.attached.watcher literal other listed
    · by_cases here : literal = fresh
      · rw [if_pos here] at new
        cases List.mem_singleton.mp new
        rw [if_pos rfl]
        exact ⟨keeper, fresh, others, rfl, .inr here, List.mem_cons_self⟩
      · rw [if_neg here] at new
        cases new
  watched id one two tail there literal watched := by
    rw [getElem?_replaceClause visiting.found] at there
    rw [view_watch apart]
    by_cases same : id = node.constraint
    · rw [if_pos same] at there
      cases there
      rcases watched with rfl | rfl
      · obtain ⟨other, listed, constraint⟩ :=
          visiting.attached.watched _ _ _ _ visiting.found literal (.inl rfl)
        have old := (mem_view_insert.mp listed).resolve_left fun here => visiting.different here.1
        exact ⟨other, List.mem_append_left _ old, by rw [constraint, same]⟩
      · refine ⟨⟨node.constraint, keeper⟩, List.mem_append_right _ ?_, same.symm⟩
        rw [if_pos rfl]
        exact List.mem_singleton_self _
    · rw [if_neg same] at there
      obtain ⟨other, listed, constraint⟩ :=
        visiting.attached.watched id one two tail there literal watched
      have old := (mem_view_insert.mp listed).resolve_left fun here => same (by
        rw [← constraint, here.2])
      exact ⟨other, List.mem_append_left _ old, constraint⟩
  once literal := by
    have distinct := visiting.attached.once literal
    by_cases here : literal = falseLiteral
    · subst here
      rw [view_self, List.map_append, List.map_cons, List.nodup_middle, ← List.map_append]
        at distinct
      rw [view_self]
      exact (List.nodup_cons.mp distinct).2
    · rw [view_of_ne here] at distinct
      rw [view_watch apart, view_of_ne here]
      by_cases there : literal = fresh
      · rw [if_pos there]
        refine WatchTable.nodup_append_node distinct fun other listed same => ?_
        -- The list of the fresh literal has no node of the clause yet.
        have listed' : other ∈ view falseLiteral (before ++ node :: after) solver.watches literal :=
          by rwa [view_of_ne here]
        rcases (visiting.attached.watches listed' (same ▸ visiting.found)).1 with equal | equal
        · exact unkept (there.symm.trans equal)
        · exact here equal
      · rw [if_neg there, List.append_nil]
        exact distinct
  mentioned id literal := by
    simp only [sum_replaceClause visiting.found]
    exact visiting.attached.mentioned id literal

/-- **A clause that finds another literal to watch leaves the list.** -/
theorem leaves (visiting : solver.Visiting done falseLiteral keeper before after node rest)
    {others : Clause} (exchanged : exchange solver.trail falseLiteral rest = some (fresh, others)) :
    Visited done falseLiteral before after node solver
      (.leaves, { solver.replaceClause node.constraint (keeper :: fresh :: others) with
        watches := solver.watches.watch fresh ⟨node.constraint, keeper⟩ }) := by
  obtain ⟨notFalse, permRest⟩ := exchange_some exchanged
  have perm : (keeper :: falseLiteral :: rest).Perm (keeper :: fresh :: others) :=
    permRest.cons keeper
  have apart : fresh ≠ falseLiteral := by
    rintro rfl
    exact Bool.false_ne_true (notFalse.symm.trans visiting.isFalse)
  have unkept : fresh ≠ keeper := by
    have distinct := visiting.core.grounded.distinct _ _ visiting.found
    have fresh' := (List.nodup_cons.mp ((perm.map Literal.atom).nodup_iff.mp distinct)).1
    exact fun same => fresh' (by rw [← same]; exact List.mem_cons_self)
  have settled := visiting.core.settled.replace visiting.found perm (by
    intro literal side entry records early
    rcases side with rfl | rfl
    · exact visiting.core.settled.clause _ _ _ _ visiting.found literal (.inl rfl) entry records
        early
    · rw [Trail.isFalse_iff.mpr ⟨entry, records⟩] at notFalse
      cases notFalse)
  have core : (solver.replaceClause node.constraint (keeper :: fresh :: others)).Core done :=
    ⟨visiting.core.grounded.reorder visiting.found perm,
      visiting.core.supported.reorder visiting.found perm, settled⟩
  refine ⟨(Progress.replaceClause visiting.found perm).trans
    (Progress.watches _ _ fun literal => WatchTable.mentioning_watch _ _ _ _),
    core.watches _, ?_, ?_⟩
  · show (solver.watches.watch _ _).watching falseLiteral = _
    rw [WatchTable.watching_watch, if_neg apart.symm]
  · exact (visiting.rewatch apart unkept perm).congr rfl
      fun literal => WatchTable.mentioning_watch _ _ _ _

end Visiting

/-! ### One visit -/

/-- The visit to a clause whose blocker is not true, once the false literal stands second in it. -/
theorem visitClause_eq {one two : Literal}
    (unblocked : solver.trail.isTrue node.blocker = false)
    (found : solver.constraints[node.constraint]? = some (.clause (one :: two :: rest)))
    (split : (keeper, falseLiteral) = if one = falseLiteral then (two, one) else (one, two)) :
    let turned := solver.replaceClause node.constraint (keeper :: falseLiteral :: rest)
    solver.visitClause falseLiteral node =
      if turned.trail.isTrue keeper then (.stays { node with blocker := keeper }, turned)
      else
        match exchange turned.trail falseLiteral rest with
        | some (fresh, others) =>
          (.leaves, { turned.replaceClause node.constraint (keeper :: fresh :: others) with
            watches := turned.watches.watch fresh ⟨node.constraint, keeper⟩ })
        | none =>
          if turned.trail.isFalse keeper then (.conflicts node, turned)
          else (.stays node, turned.push keeper node.constraint) := by
  intro turned
  unfold visitClause
  rw [unblocked, found]
  simp only [← split, turned, replaceClause_replaceClause]
  rfl

/-- **A visit to a watching clause keeps the invariants.** -/
theorem visitClause_spec {done : Nat} (core : solver.Core done)
    (attached : solver.Attached (view falseLiteral (before ++ node :: after) solver.watches))
    (isFalse : solver.trail.isFalse falseLiteral = true) :
    Visited done falseLiteral before after node solver (solver.visitClause falseLiteral node) := by
  obtain ⟨one, two, rest, found, watched, blocked⟩ :=
    attached.watcher falseLiteral node (mem_view_insert.mpr (.inl ⟨rfl, rfl⟩))
  cases unblocked : solver.trail.isTrue node.blocker with
  | true =>
    have unfolded : solver.visitClause falseLiteral node = (.stays node, solver) := by
      unfold visitClause
      rw [unblocked]
      rfl
    rw [unfolded]
    exact ⟨Progress.refl solver, core, rfl, attached, _, found, _, blocked, unblocked⟩
  | false =>
    -- The literal that the clause watches besides the false one.
    obtain ⟨keeper, split, pair⟩ : ∃ keeper,
        (keeper, falseLiteral) = (if one = falseLiteral then (two, one) else (one, two)) ∧
        SamePair keeper falseLiteral one two := by
      have apart : one ≠ two := by
        intro same
        have distinct := core.grounded.distinct _ _ found
        exact (List.nodup_cons.mp distinct).1 (by rw [same]; exact List.mem_cons_self)
      rcases watched with rfl | rfl
      · exact ⟨two, by rw [if_pos rfl], Or.inr ⟨rfl, rfl⟩⟩
      · exact ⟨one, by rw [if_neg apart], Or.inl ⟨rfl, rfl⟩⟩
    have visiting : Visiting done falseLiteral keeper before after node rest
        (solver.replaceClause node.constraint (keeper :: falseLiteral :: rest)) := by
      refine ⟨core.reorder found pair, attached.reorder found pair, isFalse, ?_⟩
      rw [getElem?_replaceClause found, if_pos rfl]
    refine Visited.behind ?_ (Progress.replaceClause found (pair.perm rest)) rfl
    rw [visitClause_eq unblocked found split]
    split
    · next keeperTrue => exact visiting.stays keeperTrue
    · next notTrue =>
      cases exchanged : exchange (solver.replaceClause node.constraint
          (keeper :: falseLiteral :: rest)).trail falseLiteral rest with
      | some result => exact visiting.leaves exchanged
      | none =>
        dsimp only
        split
        · next keeperFalse => exact visiting.conflicts exchanged keeperFalse
        · next notFalse => exact visiting.forces exchanged notTrue notFalse

/-! ### A whole list -/

/-- **Visiting the clauses that watch a false literal keeps the invariants.** Either every node
that stays belongs to a clause with a true literal, or the conflict is a clause of false
literals. -/
theorem visitClauses_spec {done : Nat} (nodes : List WatchNode) (before : List WatchNode)
    (solver : Solver) (core : solver.Core done)
    (attached : solver.Attached (view falseLiteral (before ++ nodes) solver.watches))
    (isFalse : solver.trail.isFalse falseLiteral = true)
    (handled : ∀ node ∈ before, solver.HasTrue node.constraint) :
    Progress solver (visitClauses falseLiteral nodes solver).2.2 ∧
      (visitClauses falseLiteral nodes solver).2.2.Core done ∧
      (visitClauses falseLiteral nodes solver).2.2.watches.watching falseLiteral =
        solver.watches.watching falseLiteral ∧
      (visitClauses falseLiteral nodes solver).2.2.Attached
        (view falseLiteral (before ++ (visitClauses falseLiteral nodes solver).2.1)
          (visitClauses falseLiteral nodes solver).2.2.watches) ∧
      match (visitClauses falseLiteral nodes solver).1 with
      | none => ∀ node ∈ before ++ (visitClauses falseLiteral nodes solver).2.1,
          (visitClauses falseLiteral nodes solver).2.2.HasTrue node.constraint
      | some conflict =>
          (visitClauses falseLiteral nodes solver).2.2.AllFalse conflict falseLiteral := by
  induction nodes generalizing before solver with
  | nil => exact ⟨Progress.refl solver, core, rfl, attached, by simpa [visitClauses] using handled⟩
  | cons node rest ih =>
    have visited := visitClause_spec core attached isFalse
    unfold visitClauses
    cases result : solver.visitClause falseLiteral node with
    | mk visit next =>
      rw [result] at visited
      obtain ⟨progress, core', same, outcome⟩ := visited
      cases visit with
      | conflicts failed =>
        obtain ⟨rfl, attached', allFalse⟩ := outcome
        exact ⟨progress, core', same, attached', allFalse⟩
      | stays kept =>
        obtain ⟨attached', hasTrue⟩ := outcome
        have later := ih (before ++ [kept]) next core' (by simpa using attached')
          (progress.toAdvance.isFalse isFalse) (by
            intro other inside
            rcases List.mem_append.mp inside with old | new
            · exact (handled other old).advance progress.toAdvance
            · rw [List.mem_singleton.mp new]
              exact hasTrue)
        simp only [List.append_assoc, List.singleton_append] at later
        obtain ⟨progress', core'', same', rest'⟩ := later
        exact ⟨progress.trans progress', core'', same'.trans same, rest'⟩
      | leaves =>
        have later := ih before next core' outcome (progress.toAdvance.isFalse isFalse)
          fun other inside => (handled other inside).advance progress.toAdvance
        obtain ⟨progress', core'', same', rest'⟩ := later
        exact ⟨progress.trans progress', core'', same'.trans same, rest'⟩

/-- **Drawing the consequences that clauses have from a false literal.** -/
theorem propagateClauses_spec {done : Nat} (core : solver.Core done)
    (attached : solver.Attached solver.watches.watching)
    (isFalse : solver.trail.isFalse falseLiteral = true) :
    Progress solver (solver.propagateClauses falseLiteral).2 ∧
      (solver.propagateClauses falseLiteral).2.Core done ∧
      (solver.propagateClauses falseLiteral).2.Attached
        (solver.propagateClauses falseLiteral).2.watches.watching ∧
      match (solver.propagateClauses falseLiteral).1 with
      | none => ∀ node ∈ (solver.propagateClauses falseLiteral).2.watches.watching falseLiteral,
          (solver.propagateClauses falseLiteral).2.HasTrue node.constraint
      | some conflict =>
          (solver.propagateClauses falseLiteral).2.AllFalse conflict falseLiteral := by
  let detached : Solver := { solver with watches := (solver.watches.take falseLiteral).2 }
  have viewed : ∀ literal, view falseLiteral ([] ++ solver.watches.watching falseLiteral)
      detached.watches literal = solver.watches.watching literal := by
    intro literal
    unfold view
    show (if _ then _ else (solver.watches.take falseLiteral).2.watching literal) = _
    rw [WatchTable.watching_take]
    split
    · next here => rw [here, List.nil_append]
    · rfl
  have loose : detached.Attached solver.watches.watching := attached.congr rfl fun _ => rfl
  have spec := visitClauses_spec (solver.watches.watching falseLiteral) [] detached
    (core.watches _) (loose.of_view viewed) isFalse
    fun node inside => by cases inside
  have empty : detached.watches.watching falseLiteral = [] := by
    show (solver.watches.take falseLiteral).2.watching falseLiteral = []
    rw [WatchTable.watching_take, if_pos rfl]
  have unfolded : solver.propagateClauses falseLiteral =
      ((visitClauses falseLiteral (solver.watches.watching falseLiteral) detached).1,
        { (visitClauses falseLiteral (solver.watches.watching falseLiteral) detached).2.2 with
          watches := (visitClauses falseLiteral (solver.watches.watching falseLiteral)
            detached).2.2.watches.restore falseLiteral
              (visitClauses falseLiteral (solver.watches.watching falseLiteral) detached).2.1 }) :=
    rfl
  rw [unfolded]
  generalize visitClauses falseLiteral (solver.watches.watching falseLiteral) detached = result
    at spec
  obtain ⟨conflict, kept, visited⟩ := result
  obtain ⟨progress, core', same, attached', outcome⟩ := spec
  rw [empty] at same
  have restored : ∀ literal, (visited.watches.restore falseLiteral kept).watching literal =
      view falseLiteral ([] ++ kept) visited.watches literal := by
    intro literal
    rw [WatchTable.watching_restore, same]
    rfl
  let final : Solver := { visited with watches := visited.watches.restore falseLiteral kept }
  have whole : Progress solver final :=
    (Progress.watches solver (solver.watches.take falseLiteral).2 fun _ => rfl).trans
      (progress.trans (Progress.watches visited _ fun _ => rfl))
  have loose' : final.Attached (view falseLiteral ([] ++ kept) visited.watches) :=
    attached'.congr rfl fun _ => rfl
  refine ⟨whole, core'.watches _, loose'.of_view restored, ?_⟩
  cases conflict with
  | none =>
    intro node inside
    refine outcome node ?_
    have inside' : node ∈ (visited.watches.restore falseLiteral kept).watching falseLiteral :=
      inside
    rw [restored, view_self] at inside'
    exact inside'
  | some conflict => exact outcome

end Solver

end Loadout
