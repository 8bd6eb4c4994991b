/-
A cursor over the leaves, turn by turn. Each turn takes one tree off the stack, and of a group puts the children back,
the last one first. What the cursor has given so far and what the stack still holds are together always the same
leaves, and the nodes that are still to be looked at become one fewer with every turn (`turn?_eq_some`). So the cursor
comes to its end after as many turns as the tree has nodes, and has given the leaves in the order of the recursion
(`turns_ofTree`). Visiting all leaves and selecting all of them come to the same leaves in the same order
(`leaves_in_order`).
-/
import TermTree.Proofs.Tree.Selected

namespace TermTree
namespace LeafCursor
variable {α : Type} {c c' : LeafCursor α} {found : Option (Tree α)}

/-! ## One turn -/

/-- The stack with another tree on top. -/
def push (stack : List (Tree α)) (t : Tree α) : List (Tree α) := t :: stack

/-- One turn of a cursor: the tree on top is taken off the stack. A leaf is found; of a group the children are put on
the stack, from the last to the first. -/
def turn? (c : LeafCursor α) : Option (Option (Tree α) × LeafCursor α) :=
  match c.stack with
  | [] => none
  | .leaf g a :: rest => some (some (.leaf g a), ⟨rest⟩)
  | .group _ cs :: rest => some (none, ⟨cs.reverse.foldl push rest⟩)

theorem foldl_push_reverse (cs rest : List (Tree α)) : cs.reverse.foldl push rest = cs ++ rest := by
  rw [List.foldl_reverse]
  induction cs with
  | nil => rfl
  | cons c cs ih => rw [List.foldr_cons, ih, push, List.cons_append]

theorem turn?_group (g : Grammar) (cs rest : List (Tree α)) :
    turn? ⟨.group g cs :: rest⟩ = some (none, ⟨cs ++ rest⟩) := by
  simp only [turn?, foldl_push_reverse]

theorem turn?_eq_none (h : c.turn? = none) : c = ⟨[]⟩ := by
  obtain ⟨stack⟩ := c
  cases stack with
  | nil => rfl
  | cons t rest => cases t <;> contradiction

/-- A turn takes the first of the leaves that are still to come, or none, and one of the nodes. -/
theorem turn?_eq_some (h : c.turn? = some (found, c')) :
    c.stack.flatMap Tree.leafNodes = found.toList ++ c'.stack.flatMap Tree.leafNodes ∧ c.pending = 1 + c'.pending := by
  obtain ⟨stack⟩ := c
  cases stack with
  | nil => contradiction
  | cons t rest =>
    cases t with
    | leaf g a =>
      cases h
      refine ⟨?_, ?_⟩
      · rw [List.flatMap_cons, Tree.leafNodes_leaf]
        rfl
      · rw [pending, List.map_cons, total_cons, Tree.nodeCount]
        rfl
    | group g cs =>
      rw [turn?_group] at h
      cases h
      refine ⟨?_, ?_⟩
      · rw [List.flatMap_cons, Tree.leafNodes_group, List.flatMap_append]
        rfl
      · rw [pending, pending, List.map_cons, total_cons, Tree.nodeCount_group, List.map_append, total_append,
          Nat.add_assoc]

/-! ## A run of turns -/

/-- In `n` turns the cursor finds the leaves `given` and becomes `c'`. -/
inductive Turns : LeafCursor α → Nat → List (Tree α) → LeafCursor α → Prop where
  | stay (c : LeafCursor α) : Turns c 0 [] c
  | turn {c c' c'' : LeafCursor α} {n : Nat} {found : Option (Tree α)} {given : List (Tree α)} :
      c.turn? = some (found, c') → Turns c' n given c'' → Turns c (n + 1) (found.toList ++ given) c''

/-- However far a cursor has come: no leaf is lost or given twice, and each turn has taken one node. -/
theorem Turns.invariant {n : Nat} {given : List (Tree α)} (h : Turns c n given c') :
    c.stack.flatMap Tree.leafNodes = given ++ c'.stack.flatMap Tree.leafNodes ∧ c.pending = n + c'.pending := by
  induction h with
  | stay c => exact ⟨rfl, (Nat.zero_add _).symm⟩
  | turn hturn _ ih =>
    obtain ⟨hleaves, hpending⟩ := turn?_eq_some hturn
    refine ⟨?_, by omega⟩
    rw [hleaves, ih.1, List.append_assoc]

/-- The turns of a cursor come to an end, after as many as there are nodes on the stack. -/
theorem turns_pending (c : LeafCursor α) : Turns c c.pending (c.stack.flatMap Tree.leafNodes) ⟨[]⟩ := by
  cases hturn : c.turn? with
  | none =>
    rw [turn?_eq_none hturn]
    exact .stay _
  | some r =>
    obtain ⟨hleaves, hpending⟩ := turn?_eq_some hturn
    have hrest := turns_pending r.2
    rw [hleaves, hpending, Nat.add_comm]
    exact .turn hturn hrest
termination_by c.pending
decreasing_by omega

/-- The search for the next leaf is a run of turns, up to the turn that finds one. -/
theorem turns_of_next?_some {t : Tree α} (h : c.next? = some (t, c')) : ∃ n, Turns c n [t] c' := by
  fun_induction next? c with
  | case1 => contradiction
  | case2 c g a rest hs =>
    cases h
    have hturn : c.turn? = some (some (.leaf g a), ⟨rest⟩) := by rw [turn?, hs]
    exact ⟨1, .turn hturn (.stay _)⟩
  | case3 c g cs rest hs ih =>
    obtain ⟨n, hrun⟩ := ih h
    have hturn : c.turn? = some (none, ⟨cs ++ rest⟩) := by rw [← turn?_group g, ← hs]
    exact ⟨n + 1, .turn hturn hrun⟩

theorem turns_of_next?_none (h : c.next? = none) : Turns c c.pending [] ⟨[]⟩ := by
  have hrun := turns_pending c
  rwa [flatMap_leafNodes_stack, h] at hrun

theorem pending_ofTree (t : Tree α) : (ofTree t).pending = t.nodeCount := by
  simp [pending, ofTree]

theorem turns_ofTree (t : Tree α) : Turns (ofTree t) t.nodeCount t.leafNodes ⟨[]⟩ := by
  have hrun := turns_pending (ofTree t)
  rwa [pending_ofTree, ← toList_eq_flatMap, toList_ofTree] at hrun

end LeafCursor

namespace Tree

theorem noted_visitAll_noting {α σ : Type} (f : α → StateM σ α) (t : Tree α) (st : σ) :
    ((t.visitAll (noting f)).run (st, [])).2.2 = t.leaves := by
  have hall : ∀ a, noting f a = if true then noting f (id a) else pure (id a) := fun _ => rfl
  rw [noted_visitAll hall, List.nil_append, List.filter_true, List.map_id]

theorem eq_leaf_of_mem_leafNodes {α : Type} {t n : Tree α} (h : n ∈ t.leafNodes) : ∃ g a, n = leaf g a := by
  induction t using induction with
  | leaf g a =>
    rw [leafNodes_leaf] at h
    exact ⟨g, a, List.mem_singleton.1 h⟩
  | group g cs ih =>
    rw [leafNodes_group] at h
    obtain ⟨c, hc, hn⟩ := List.mem_flatMap.1 h
    exact ih c hc hn

theorem filter_leafNodes_true {α : Type} (t : Tree α) : t.leafNodes.filter (isLeafWhere fun _ => true) = t.leafNodes := by
  refine List.filter_eq_self.2 fun n hn => ?_
  obtain ⟨g, a, rfl⟩ := eq_leaf_of_mem_leafNodes hn
  rfl

theorem filterMap_content?_leafNodes {α : Type} (t : Tree α) : t.leafNodes.filterMap content? = t.leaves := by
  have hmap := map_content?_leafNodes (fun _ => true) t
  rw [filter_leafNodes_true, List.filter_true] at hmap
  exact filterMap_of_map_eq hmap

/-- **The cursor, a visit of all leaves and the selection of all leaves agree.** The cursor looks for each leaf in a loop
of turns. The loop comes to its end, after as many turns as the tree has nodes, and however far it has come no leaf is
lost and none is given twice. The leaves come in the order of the recursion. What they carry is handed to the function
of a visit in this order, whatever the function does; and a selection by a test that always holds has these leaves in
this order. Its paths are all the paths to leaves, and ascend, so each leaf comes once. -/
theorem leaves_in_order (t : Tree Occurrence) :
    (∀ c : LeafCursor Occurrence, (∀ l c', c.next? = some (l, c') → ∃ n, LeafCursor.Turns c n [l] c') ∧
      (c.next? = none → LeafCursor.Turns c c.pending [] ⟨[]⟩)) ∧
    LeafCursor.Turns (.ofTree t) t.nodeCount t.leafNodes ⟨[]⟩ ∧
    (∀ n given c, LeafCursor.Turns (.ofTree t) n given c →
      given ++ c.toList = t.leafNodes ∧ n + c.pending = t.nodeCount) ∧
    (LeafCursor.ofTree t).toList = t.leafNodes ∧
    (LeafCursor.ofTree t).toList.filterMap content? = t.leaves ∧
    (∀ (σ : Type) (f : Occurrence → StateM σ Occurrence) (st : σ),
      ((t.visitAll (noting f)).run (st, [])).2.2 = t.leaves) ∧
    (t.select (.test fun _ => true)).nodes = t.leafNodes ∧
    (t.select (.test fun _ => true)).occurrences = t.leaves ∧
    (t.select (.test fun _ => true)).paths.map t.get? = t.leafNodes.map some ∧
    (t.select (.test fun _ => true)).paths.Pairwise (List.Lex (· < ·)) ∧
    ∀ p, p ∈ (t.select (.test fun _ => true)).paths ↔ ∃ g a, t.get? p = some (leaf g a) := by
  refine ⟨fun c => ⟨fun l c' => LeafCursor.turns_of_next?_some, LeafCursor.turns_of_next?_none⟩,
    LeafCursor.turns_ofTree t, fun n given c hrun => ?_, LeafCursor.toList_ofTree t, ?_,
    fun σ f st => noted_visitAll_noting f t st, ?_, ?_, ?_, pairwise_pathsWhere _ t, fun p => ?_⟩
  · obtain ⟨hleaves, hpending⟩ := hrun.invariant
    refine ⟨?_, ?_⟩
    · rw [← LeafCursor.toList_ofTree, LeafCursor.toList_eq_flatMap, LeafCursor.toList_eq_flatMap, hleaves]
    · rw [← hpending, LeafCursor.pending_ofTree]
  · rw [LeafCursor.toList_ofTree, filterMap_content?_leafNodes]
  · rw [Selection.nodes_select]
    exact filter_leafNodes_true t
  · rw [Selection.occurrences_select]
    exact List.filter_true _
  · rw [← filter_leafNodes_true t]
    exact map_get?_pathsWhere _ t
  · rw [Tree.select, mem_pathsWhere]
    simp [Selector.selects]

/-- Behind two turns, of which the second took an empty group, two leaves are still to come, one of them in a group. -/
theorem leaves_in_order_midway :
    LeafCursor.Turns (.ofTree (group {} [group {} [], leaf {} (⟨4, { name := ['a'] }⟩ : Occurrence),
      group {} [leaf {} ⟨7, { name := ['b'] }⟩]])) 2 []
      ⟨[leaf {} ⟨4, { name := ['a'] }⟩, group {} [leaf {} ⟨7, { name := ['b'] }⟩]]⟩ ∧
    (LeafCursor.mk [leaf {} (⟨4, { name := ['a'] }⟩ : Occurrence), group {} [leaf {} ⟨7, { name := ['b'] }⟩]]).toList =
      (group {} [group {} [], leaf {} ⟨4, { name := ['a'] }⟩, group {} [leaf {} ⟨7, { name := ['b'] }⟩]]).leafNodes := by
  have hrun : LeafCursor.Turns (.ofTree (group {} [group {} [], leaf {} (⟨4, { name := ['a'] }⟩ : Occurrence),
      group {} [leaf {} ⟨7, { name := ['b'] }⟩]])) 2 []
      ⟨[leaf {} ⟨4, { name := ['a'] }⟩, group {} [leaf {} ⟨7, { name := ['b'] }⟩]]⟩ := by
    have hempty := LeafCursor.turn?_group {} [] [leaf {} (⟨4, { name := ['a'] }⟩ : Occurrence),
      group {} [leaf {} ⟨7, { name := ['b'] }⟩]]
    exact .turn (LeafCursor.turn?_group _ _ _) (.turn hempty (.stay _))
  obtain ⟨-, -, hmidway, -⟩ := leaves_in_order (group {} [group {} [], leaf {} ⟨4, { name := ['a'] }⟩,
    group {} [leaf {} ⟨7, { name := ['b'] }⟩]])
  exact ⟨hrun, (hmidway 2 [] _ hrun).1⟩

end Tree
end TermTree
