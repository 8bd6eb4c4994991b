/-
Selections: leaves of a tree, chosen by a selector and kept as paths. An edit through a selection is an
edit of the tree itself. A copy of the selected leaves is a tree of its own.
-/
import TermTree.Selector
import TermTree.Tree.Path
import TermTree.Tree.Traversal
import TermTree.Tree.Writer

namespace TermTree

/-- Leaves of a tree, by their paths. -/
structure Selection where
  tree : Tree Occurrence
  paths : List Path

/-- The leaves whose term contains what the selector asks for, in the order of the leaves. -/
def Tree.select (s : Selector) (t : Tree Occurrence) : Selection := ⟨t, t.pathsWhere s.selects⟩

namespace Selection

/-- The selected leaves. -/
def nodes (s : Selection) : List (Tree Occurrence) := s.paths.filterMap s.tree.get?

/-- What the selected leaves carry. -/
def occurrences (s : Selection) : List Occurrence := s.nodes.filterMap Tree.content?

/-- The number of selected leaves. -/
def size (s : Selection) : Nat := s.paths.length

/-- The selected leaf at an index. -/
def get? (s : Selection) (i : Nat) : Option (Tree Occurrence) := s.nodes[i]?

/-- The identities of the selected leaves. -/
def ids (s : Selection) : List Id := s.occurrences.map (·.id)

/-- The texts of the selected leaves, joined by a space. -/
def toText (s : Selection) : Text := Text.joinWith [' '] (s.nodes.map Tree.toText)

/-- Runs `f` on each of the selected leaves, one after another. -/
def visit [Monad m] (f : Occurrence → m Occurrence) (s : Selection) : m Selection := do
  let tree ← s.paths.foldlM (fun t p => t.visitAt f p) s.tree
  return { s with tree }

/-- Runs `f` on the last selected leaf. -/
def visitLast [Monad m] (f : Occurrence → m Occurrence) (s : Selection) : m Selection := do
  match s.paths.getLast? with
  | none => return s
  | some p => return { s with tree := ← s.tree.visitAt f p }

/-- A group of copies of the selected leaves, with the grammar of the tree. -/
def toTree (s : Selection) : StateM Supply (Tree Occurrence) := do
  return .group s.tree.grammar (← s.nodes.mapM Tree.copy)

end Selection
end TermTree
