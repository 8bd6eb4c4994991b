/-
Paths: the indices of children that lead from the root of a tree to one of its nodes. A leaf is found
by a test of what it carries, such as its identity; the path found is the first in the order of the
leaves, and nothing is stored in the tree for it.
-/
import TermTree.Tree

namespace TermTree

/-- The indices of children from a root down to a node. -/
abbrev Path := List Nat

/-- The path of the group that holds the node; the root is held by none. -/
def Path.parent? : Path → Option Path
  | [] => none
  | i :: p => some (i :: p).dropLast

namespace Tree
variable {α : Type}

/-- The node that a path leads to. -/
def get? (t : Tree α) : Path → Option (Tree α)
  | [] => some t
  | i :: p =>
    match t with
    | leaf .. => none
    | group _ cs =>
      match cs[i]? with
      | none => none
      | some c => c.get? p

/-- Puts `f t` in the place of the node `t` that a path leads to; a path that leads nowhere changes nothing. -/
def modifyAt [Monad m] (f : Tree α → m (Tree α)) : Path → Tree α → m (Tree α)
  | [], t => f t
  | _ :: _, leaf g a => pure (leaf g a)
  | i :: p, group g cs =>
    match cs[i]? with
    | none => pure (group g cs)
    | some c => (fun c => group g (cs.set i c)) <$> modifyAt f p c

/-- Puts another tree in the place of a node. -/
def setAt (t : Tree α) (p : Path) (new : Tree α) : Tree α := Id.run (t.modifyAt (fun _ => pure new) p)

/-- Runs `f` on what a leaf carries; on a group nothing is done. -/
def visitLeaf [Monad m] (f : α → m α) : Tree α → m (Tree α)
  | leaf g a => leaf g <$> f a
  | group g cs => pure (group g cs)

/-- Runs `f` on the leaf that a path leads to. -/
def visitAt [Monad m] (f : α → m α) (p : Path) (t : Tree α) : m (Tree α) := t.modifyAt (visitLeaf f) p

mutual

/-- The paths of the leaves that pass the test, in the order of the leaves. -/
def pathsWhere (test : α → Bool) : Tree α → List Path
  | leaf _ a => if test a then [[]] else []
  | group _ cs => pathsFrom test 0 cs

/-- The paths of such leaves in children of which the first has index `i`. -/
def pathsFrom (test : α → Bool) (i : Nat) : List (Tree α) → List Path
  | [] => []
  | c :: cs => (pathsWhere test c).map (i :: ·) ++ pathsFrom test (i + 1) cs

end

/-- The path of the first leaf with an identity. -/
def findPath? (id : Id) (t : Tree Occurrence) : Option Path := (t.pathsWhere (·.id == id)).head?

/-- The first leaf with an identity. -/
def findLeaf? (id : Id) (t : Tree Occurrence) : Option (Tree Occurrence) := do t.get? (← t.findPath? id)

/-- The group that holds the first leaf with an identity. -/
def findOwner? (id : Id) (t : Tree Occurrence) : Option (Tree Occurrence) := do
  t.get? (← Path.parent? (← t.findPath? id))

/-- Runs `f` on the first leaf with an identity, if there is one. -/
def visitId [Monad m] (f : Occurrence → m Occurrence) (id : Id) (t : Tree Occurrence) : Option (m (Tree Occurrence)) :=
  (t.findPath? id).map fun p => t.visitAt f p

end Tree
end TermTree
