/-
Trees: a leaf carries something, a group holds an ordered list of trees, and both carry a grammar.
The grammar of a leaf is its own, apart from that of the term it may carry.

What leaves carry is left open: reading a text gives trees of terms, and a workspace holds trees of
occurrences. `Tree.induction` is the principle that proofs about trees use.
-/
import TermTree.Occurrence

namespace TermTree

/-- A tree whose leaves carry values of type `α`. -/
inductive Tree (α : Type) where
  | leaf (grammar : Grammar) (content : α)
  | group (grammar : Grammar) (children : List (Tree α))
  deriving Repr, Inhabited

namespace Tree
variable {α β : Type}

/-- What holds of leaves, and of a group when it holds of its children, holds of all trees. -/
@[elab_as_elim]
theorem induction {motive : Tree α → Prop} (leaf : ∀ g a, motive (.leaf g a))
    (group : ∀ g cs, (∀ c ∈ cs, motive c) → motive (.group g cs)) : ∀ t, motive t
  | .leaf g a => leaf g a
  | .group g cs => group g cs fun c _ => induction leaf group c

/-- The grammar of the root. -/
def grammar : Tree α → Grammar
  | leaf g _ => g
  | group g _ => g

/-- The shape of the root. -/
def shape : Tree α → Shape
  | leaf .. => .leaf
  | group .. => .group

/-- What the root carries, if it is a leaf. -/
def content? : Tree α → Option α
  | leaf _ a => some a
  | group .. => none

/-- The children of the root, if it is a group. -/
def children? : Tree α → Option (List (Tree α))
  | leaf .. => none
  | group _ cs => some cs

/-- What the root carries; a group is refused. -/
def content : Tree α → Except Error α
  | leaf _ a => .ok a
  | group .. => .error (.wrongShape .leaf .group)

/-- The children of the root; a leaf is refused. -/
def children : Tree α → Except Error (List (Tree α))
  | leaf .. => .error (.wrongShape .group .leaf)
  | group _ cs => .ok cs

/-- The same tree with what its leaves carry changed by `f`. -/
def map (f : α → β) : Tree α → Tree β
  | leaf g a => leaf g (f a)
  | group g cs => group g (cs.map (map f))

/-- What the leaves carry, depth first and left to right. -/
def leaves : Tree α → List α
  | leaf _ a => [a]
  | group _ cs => cs.flatMap leaves

/-- What is carried at the end of the chain of first children, if the chain ends in a leaf. -/
def first? : Tree α → Option α
  | leaf _ a => some a
  | group _ [] => none
  | group _ (c :: _) => first? c

/-- A leaf for a term, with the grammar of the term. -/
def ofTerm (a : Term) : Tree Term := leaf a.grammar a

/-- A leaf for an occurrence, with the grammar of its term. -/
def ofOccurrence (a : Occurrence) : Tree Occurrence := leaf a.term.grammar a

@[simp] theorem map_leaf (f : α → β) (g : Grammar) (a : α) : (leaf g a).map f = leaf g (f a) := by
  rw [map]

@[simp] theorem map_group (f : α → β) (g : Grammar) (cs : List (Tree α)) :
    (group g cs).map f = group g (cs.map (map f)) := by
  rw [map]

@[simp] theorem leaves_leaf (g : Grammar) (a : α) : (leaf g a).leaves = [a] := by
  rw [leaves]

@[simp] theorem leaves_group (g : Grammar) (cs : List (Tree α)) :
    (group g cs).leaves = cs.flatMap leaves := by
  rw [leaves]

@[simp] theorem leaves_map (f : α → β) (t : Tree α) : (t.map f).leaves = t.leaves.map f := by
  induction t using induction with
  | leaf g a => simp
  | group g cs ih =>
    simp only [map_group, leaves_group, List.flatMap_map, List.map_flatMap]
    rw [List.flatMap_def, List.flatMap_def, List.map_congr_left ih]

theorem map_map {γ : Type} (f : α → β) (k : β → γ) (t : Tree α) : (t.map f).map k = t.map fun a => k (f a) := by
  induction t using induction with
  | leaf g a => simp
  | group g cs ih =>
    rw [map_group, map_group, map_group, List.map_map]
    exact congrArg (group g) (List.map_congr_left ih)

theorem map_id (t : Tree α) : t.map id = t := by
  induction t using induction with
  | leaf g a => simp
  | group g cs ih => rw [map_group, List.map_congr_left ih, List.map_id']

end Tree
end TermTree
