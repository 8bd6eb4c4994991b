/-
A cursor over the leaves of a tree: a stack of the trees whose leaves are still to come. Each step
opens groups until a leaf is on top. The trees on the stack have fewer and fewer nodes, so the cursor
comes to an end.
-/
import TermTree.Total
import TermTree.Tree

namespace TermTree
variable {α : Type}

namespace Tree

/-- The number of nodes. -/
def nodeCount : Tree α → Nat
  | leaf .. => 1
  | group _ cs => 1 + total (cs.map nodeCount)

@[simp] theorem nodeCount_group (g : Grammar) (cs : List (Tree α)) :
    (group g cs).nodeCount = 1 + total (cs.map nodeCount) := by
  rw [nodeCount]

theorem nodeCount_pos (t : Tree α) : 0 < t.nodeCount := by
  cases t with
  | leaf g a => rw [nodeCount]; omega
  | group g cs => rw [nodeCount_group]; omega

/-- The leaves as nodes, depth first and left to right. -/
def leafNodes : Tree α → List (Tree α)
  | leaf g a => [leaf g a]
  | group _ cs => cs.flatMap leafNodes

end Tree

/-- The trees whose leaves are still to come, the next one first. -/
structure LeafCursor (α : Type) where
  stack : List (Tree α)

namespace LeafCursor

/-- The number of nodes still to be looked at. -/
def pending (c : LeafCursor α) : Nat := total (c.stack.map Tree.nodeCount)

/-- A cursor before the first leaf of a tree. -/
def ofTree (t : Tree α) : LeafCursor α := ⟨[t]⟩

/-- The next leaf, and the cursor behind it. -/
def next? (c : LeafCursor α) : Option (Tree α × LeafCursor α) :=
  match _ : c.stack with
  | [] => none
  | .leaf g a :: rest => some (.leaf g a, ⟨rest⟩)
  | .group _ cs :: rest => next? ⟨cs ++ rest⟩
termination_by c.pending
decreasing_by
  simp only [pending, ‹c.stack = _›, List.map_append, total_append, List.map_cons,
    total_cons, Tree.nodeCount_group]
  omega

theorem pending_lt_of_next? {c c' : LeafCursor α} {t : Tree α} (h : c.next? = some (t, c')) :
    c'.pending < c.pending := by
  fun_induction next? c with
  | case1 => simp at h
  | case2 c g a rest hs =>
    simp only [Option.some.injEq, Prod.mk.injEq] at h
    rw [← h.2]
    simp only [pending, hs, List.map_cons, total_cons]
    have := (Tree.leaf g a).nodeCount_pos
    omega
  | case3 c g cs rest hs ih =>
    refine Nat.lt_trans (ih h) ?_
    simp only [pending, hs, List.map_append, total_append, List.map_cons, total_cons,
      Tree.nodeCount_group]
    omega

/-- All leaves from the cursor on. -/
def toList (c : LeafCursor α) : List (Tree α) :=
  match _ : c.next? with
  | none => []
  | some found => found.1 :: toList found.2
termination_by c.pending
decreasing_by exact pending_lt_of_next? ‹_›

end LeafCursor
end TermTree
