/-
Putting items into a tree: at the end, at the front, or in the place of a child; joining items to a new
tree, and taking a tree apart. An item is a text, which is read with the grammar of the tree, or a tree.
Items are put into a tree in place. All of them are made into trees before the tree itself is changed, so a text that
cannot be read leaves it as it was.
-/
import TermTree.Tree.Reader
import TermTree.Tree.Traversal

namespace TermTree

/-- What can be put into a tree. -/
inductive Item where
  | text (t : Text)
  | tree (t : Tree Occurrence)

namespace Tree

/-- The children of a group; a leaf stands for itself. -/
def members {α : Type} : Tree α → List (Tree α)
  | leaf g a => [leaf g a]
  | group _ cs => cs

/-- The trees that an item stands for: a text for the children of what is read from it, a tree for itself. -/
def ofItem (g : Grammar) : Item → Drawing (List (Tree Occurrence))
  | .text t => do return (← readFresh g t).members
  | .tree t => return [t]

/-- The trees that items stand for, from left to right. -/
def ofItems (g : Grammar) (items : List Item) : Drawing (List (Tree Occurrence)) := do
  return (← items.mapM (ofItem g)).flatten

/-- Whether a node is a leaf with the identity. -/
def isLeafOf (id : Id) (t : Tree Occurrence) : Bool := t.content?.any (·.id == id)

end Tree

/-! ## In place -/

namespace TreeEdit
open TermTree.Editing TermTree.Tree

/-- Puts items behind the children. -/
def append (items : List Item) : Editing (Tree Occurrence) Unit := do
  let t ← held
  let new ← drawing (ofItems t.grammar items)
  let cs ← Editing.ofResult t.children
  put (group t.grammar (cs ++ new))

/-- Puts items before the children. -/
def prepend (items : List Item) : Editing (Tree Occurrence) Unit := do
  let t ← held
  let new ← drawing (ofItems t.grammar items)
  let cs ← Editing.ofResult t.children
  put (group t.grammar (new ++ cs))

/-- Puts items in the place of the child that is a leaf with the identity `target`, and tells whether there
is one. Deeper leaves are not looked at. -/
def replaceChild (target : Id) (items : List Item) : Editing (Tree Occurrence) Bool := do
  let t ← held
  let new ← drawing (ofItems t.grammar items)
  match t with
  | leaf .. => return false
  | group g cs =>
    match cs.findIdx? (isLeafOf target) with
    | none => return false
    | some i =>
      put (group g (cs.take i ++ new ++ cs.drop (i + 1)))
      return true

end TreeEdit

namespace Tree

/-- The tree with items behind its children. -/
def append (items : List Item) (t : Tree Occurrence) : Drawing (Tree Occurrence) := do
  return (← (TreeEdit.append items).on t).2

/-- The tree with items before its children. -/
def prepend (items : List Item) (t : Tree Occurrence) : Drawing (Tree Occurrence) := do
  return (← (TreeEdit.prepend items).on t).2

/-- Whether there is a child that is a leaf with the identity `target`, and the tree with items in its place. -/
def replaceChild (target : Id) (items : List Item) (t : Tree Occurrence) : Drawing (Bool × Tree Occurrence) :=
  (TreeEdit.replaceChild target items).on t

theorem append_eq (items : List Item) (t : Tree Occurrence) :
    t.append items = do
      let new ← ofItems t.grammar items
      let cs ← Drawing.ofResult t.children
      return group t.grammar (cs ++ new) := by
  simp [append, TreeEdit.append]

theorem prepend_eq (items : List Item) (t : Tree Occurrence) :
    t.prepend items = do
      let new ← ofItems t.grammar items
      let cs ← Drawing.ofResult t.children
      return group t.grammar (new ++ cs) := by
  simp [prepend, TreeEdit.prepend]

theorem replaceChild_eq (target : Id) (items : List Item) (t : Tree Occurrence) :
    t.replaceChild target items = do
      let new ← ofItems t.grammar items
      match t with
      | leaf .. => return (false, t)
      | group g cs =>
        match cs.findIdx? (isLeafOf target) with
        | none => return (false, t)
        | some i => return (true, group g (cs.take i ++ new ++ cs.drop (i + 1))) := by
  rw [replaceChild, TreeEdit.replaceChild, Editing.on_held_bind, Editing.on_drawing_bind]
  congr 1
  funext new
  cases t with
  | leaf g a => rfl
  | group g cs =>
    cases hi : cs.findIdx? (isLeafOf target) <;> simp only [hi] <;> rfl

/-! ## From items to a tree and back -/

/-- The grammar of the first tree among the items, or the default one. -/
def itemGrammar (items : List Item) : Grammar :=
  (items.findSome? fun
    | .text _ => none
    | .tree t => some t.grammar).getD {}

/-- Joins items to a new group: texts are read with the grammar of the first tree among the items, and of
each group the children are taken. -/
def join (items : List Item) : Drawing (Tree Occurrence) := do
  let g := itemGrammar items
  let parts ← items.mapM fun
    | .text t => do return (← readFresh g t).members
    | .tree t => return t.members
  return group g parts.flatten

/-- Takes a group apart into its first child and a group of the others. -/
def detachFirst {α : Type} : Tree α → Except Error (Tree α × Tree α)
  | leaf .. => .error (.wrongShape .group .leaf)
  | group _ [] => .error .emptyGroup
  | group g (c :: cs) => .ok (c, group g cs)

/-- The tree as a root of its own: a leaf with the grammar of its term, a group with the grammar `g`. -/
def regroup (g : Grammar) : Tree Occurrence → Tree Occurrence
  | leaf _ a => ofOccurrence a
  | group _ cs => group g cs

/-- The tree `t` with the grammar of the root changed to `g`. -/
def withGrammar {α : Type} (g : Grammar) : Tree α → Tree α
  | leaf _ a => leaf g a
  | group _ cs => group g cs

end Tree
end TermTree
