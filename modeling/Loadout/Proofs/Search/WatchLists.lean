/-
**What each operation does to the watch lists.**

The table is read through two views: the clauses that watch a literal (`WatchTable.watching`) and
the bounded sums that mention it (`WatchTable.mentioning`). Each operation changes the views as it
should, and nothing else: `watching_watch`, `watching_take`, `watching_restore`,
`mem_mentioning_watchSum`.
-/

import Loadout.Search.Watch

namespace Loadout

namespace WatchTable

/-- Literals have places of their own. -/
theorem place_injective {first second : Literal} (same : place first = place second) :
    first = second := by
  obtain ⟨atom, positive⟩ := first
  obtain ⟨atom', positive'⟩ := second
  cases positive <;> cases positive' <;> simp [place] at same ⊢ <;> omega

/-- Putting a list at a place leaves the other places as they are. -/
theorem getD_putAt {α : Type} (place other : Nat) (list : List α) (lists : Array (List α)) :
    (putAt place list lists)[other]?.getD [] =
      if other = place then list else lists[other]?.getD [] := by
  have roomy : place < (lists ++ Array.replicate (place + 1 - lists.size) ([] : List α)).size := by
    rw [Array.size_append, Array.size_replicate]
    omega
  unfold putAt
  rw [Array.getElem?_setIfInBounds]
  by_cases same : place = other
  · subst same
    rw [if_pos rfl, if_pos roomy, if_pos rfl]
    rfl
  · rw [if_neg same, if_neg fun equal => same equal.symm, Array.getElem?_append]
    split
    · rfl
    · next outside =>
      rw [Array.getElem?_replicate, Array.getElem?_eq_none_iff.mpr (Nat.le_of_not_lt outside)]
      split <;> rfl

/-! ### Clauses -/

theorem watching_watch (table : WatchTable) (literal other : Literal) (node : WatchNode) :
    (table.watch literal node).watching other =
      if other = literal then table.watching literal ++ [node] else table.watching other := by
  unfold watch
  show (putAt _ _ _)[place other]?.getD [] = _
  rw [getD_putAt]
  by_cases same : other = literal
  · rw [if_pos same, if_pos (by rw [same])]
  · rw [if_neg same, if_neg fun equal => same (place_injective equal)]
    rfl

@[simp] theorem mentioning_watch (table : WatchTable) (literal other : Literal)
    (node : WatchNode) : (table.watch literal node).mentioning other = table.mentioning other := rfl

theorem watching_watchClause (table : WatchTable) (constraint : ConstraintId)
    {first second : Literal} (different : first ≠ second) (other : Literal) :
    (table.watchClause constraint first second).watching other =
      if other = first then table.watching first ++ [⟨constraint, second⟩]
      else if other = second then table.watching second ++ [⟨constraint, first⟩]
      else table.watching other := by
  unfold watchClause
  rw [watching_watch, watching_watch, watching_watch, if_neg different.symm]
  by_cases one : other = first
  · rw [if_pos one, if_pos one, if_neg (by rw [one]; exact different)]
  · rw [if_neg one, if_neg one]

theorem mem_watching_watchClause (table : WatchTable) (constraint : ConstraintId)
    {first second : Literal} (different : first ≠ second) (other : Literal) (node : WatchNode) :
    node ∈ (table.watchClause constraint first second).watching other ↔
      node ∈ table.watching other ∨
        (other = first ∧ node = ⟨constraint, second⟩ ∨
          other = second ∧ node = ⟨constraint, first⟩) := by
  rw [watching_watchClause _ _ different]
  by_cases one : other = first
  · subst one
    simp [different]
  · by_cases two : other = second
    · subst two
      simp [one]
    · simp [one, two]

/-- A list in which no clause stands twice may get a node of another clause. -/
theorem nodup_append_node {nodes : List WatchNode} {node : WatchNode}
    (once : (nodes.map WatchNode.constraint).Nodup)
    (fresh : ∀ other ∈ nodes, other.constraint ≠ node.constraint) :
    ((nodes ++ [node]).map WatchNode.constraint).Nodup := by
  rw [List.map_append, List.nodup_append]
  refine ⟨once, List.pairwise_singleton _ _, fun id inside other last equal => ?_⟩
  obtain ⟨listed, member, same⟩ := List.mem_map.mp inside
  rw [List.map_singleton, List.mem_singleton] at last
  exact fresh listed member (by rw [same, equal, last])

@[simp] theorem mentioning_watchClause (table : WatchTable) (constraint : ConstraintId)
    (first second other : Literal) :
    (table.watchClause constraint first second).mentioning other = table.mentioning other := by
  unfold watchClause
  rw [mentioning_watch, mentioning_watch]

@[simp] theorem fst_take (table : WatchTable) (literal : Literal) :
    (table.take literal).1 = table.watching literal := rfl

theorem watching_take (table : WatchTable) (literal other : Literal) :
    (table.take literal).2.watching other =
      if other = literal then [] else table.watching other := by
  show (table.clauses.setIfInBounds (place literal) [])[place other]?.getD [] = _
  rw [Array.getElem?_setIfInBounds]
  by_cases same : other = literal
  · rw [if_pos same, if_pos (by rw [same])]
    by_cases inside : place literal < table.clauses.size
    · rw [if_pos inside, Option.getD_some]
    · rw [if_neg inside, Option.getD_none]
  · rw [if_neg same, if_neg fun equal => same (place_injective equal).symm]
    rfl

@[simp] theorem mentioning_take (table : WatchTable) (literal other : Literal) :
    (table.take literal).2.mentioning other = table.mentioning other := rfl

theorem watching_restore (table : WatchTable) (literal other : Literal) (nodes : List WatchNode) :
    (table.restore literal nodes).watching other =
      if other = literal then table.watching literal ++ nodes else table.watching other := by
  unfold restore
  show (putAt _ _ _)[place other]?.getD [] = _
  rw [getD_putAt]
  by_cases same : other = literal
  · rw [if_pos same, if_pos (by rw [same])]
  · rw [if_neg same, if_neg fun equal => same (place_injective equal)]
    rfl

@[simp] theorem mentioning_restore (table : WatchTable) (literal other : Literal)
    (nodes : List WatchNode) :
    (table.restore literal nodes).mentioning other = table.mentioning other := rfl

/-! ### Bounded sums -/

/-- Watching a bounded sum adds it to the lists of its literals and to no other. -/
theorem mem_mentioning_watchSum (table : WatchTable) (constraint other : ConstraintId)
    (literals : List Literal) (literal : Literal) :
    other ∈ (table.watchSum constraint literals).mentioning literal ↔
      other ∈ table.mentioning literal ∨ other = constraint ∧ literal ∈ literals := by
  unfold watchSum
  induction literals generalizing table with
  | nil => simp
  | cons head rest ih =>
    rw [List.foldl_cons, ih]
    show other ∈ (putAt _ _ _)[place literal]?.getD [] ∨ _ ↔ _
    rw [getD_putAt, List.mem_cons]
    by_cases same : literal = head
    · subst same
      rw [if_pos rfl, List.mem_append, List.mem_singleton]
      constructor
      · rintro ((old | new) | ⟨new, _⟩)
        · exact Or.inl old
        · exact Or.inr ⟨new, Or.inl rfl⟩
        · exact Or.inr ⟨new, Or.inl rfl⟩
      · rintro (old | ⟨new, _⟩)
        · exact Or.inl (Or.inl old)
        · exact Or.inl (Or.inr new)
    · rw [if_neg fun equal => same (place_injective equal)]
      constructor
      · rintro (old | ⟨new, inside⟩)
        · exact Or.inl old
        · exact Or.inr ⟨new, Or.inr inside⟩
      · rintro (old | ⟨new, here | inside⟩)
        · exact Or.inl old
        · exact absurd here same
        · exact Or.inr ⟨new, inside⟩

@[simp] theorem watching_watchSum (table : WatchTable) (constraint : ConstraintId)
    (literals : List Literal) (literal : Literal) :
    (table.watchSum constraint literals).watching literal = table.watching literal := by
  unfold watchSum
  induction literals generalizing table with
  | nil => rfl
  | cons head rest ih => rw [List.foldl_cons, ih]; rfl

end WatchTable

end Loadout
