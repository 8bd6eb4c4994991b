/-
Removing leaves: either the first leaf of each child or every leaf, where a selector takes it. Groups
stay, also when nothing is left in them, and a tree that is a single leaf stays as it is.
-/
import TermTree.Selector
import TermTree.Total
import TermTree.Tree

namespace TermTree.Tree
variable {α : Type}

/-- The tree without its first leaf, if it is a group that has one and this passes the test. -/
def dropFirst? (test : α → Bool) : Tree α → Option (Tree α)
  | leaf .. => none
  | group _ [] => none
  | group g (leaf _ a :: cs) => if test a then some (group g cs) else none
  | group g (group h ds :: cs) => (dropFirst? test (group h ds)).map fun c => group g (c :: cs)

/-- What is left of a child whose first leaf is removed if it passes the test, with the number removed. -/
def dropHead (test : α → Bool) (c : Tree α) : Nat × List (Tree α) :=
  match c with
  | leaf _ a => if test a then (1, []) else (0, [c])
  | group .. =>
    match dropFirst? test c with
    | some c => (1, [c])
    | none => (0, [c])

/-- Removes the first leaf of each child that passes the test, and counts them. -/
def dropHeads (test : α → Bool) : Tree α → Nat × Tree α
  | leaf g a => (0, leaf g a)
  | group g cs =>
    let rs := cs.map (dropHead test)
    (total (rs.map (·.1)), group g (rs.flatMap (·.2)))

/-- Whether a node is a leaf that passes the test. -/
def isLeafWhere (test : α → Bool) (t : Tree α) : Bool := t.content?.any test

/-- The tree without the leaves below its root that pass the test. -/
def dropLeaves (test : α → Bool) : Tree α → Tree α
  | leaf g a => leaf g a
  | group g cs =>
    group g (cs.filterMap fun c => if c.isLeafWhere test then none else some (dropLeaves test c))

/-- The number of leaves below the root that pass the test. -/
def countLeaves (test : α → Bool) : Tree α → Nat
  | leaf .. => 0
  | group _ cs => total (cs.map fun c => if c.isLeafWhere test then 1 else countLeaves test c)

/-- Runs `f` for one selector after another, and adds up what it counts. -/
def removeEach (f : Selector → Tree Occurrence → Nat × Tree Occurrence) :
    List Selector → Tree Occurrence → Nat × Tree Occurrence
  | [], t => (0, t)
  | s :: ss, t =>
    let (n, t) := f s t
    let (k, t) := removeEach f ss t
    (n + k, t)

/-- Removes the first leaf of each child if the selector takes it; one selector after another. -/
def removeHeads (selectors : List Selector) (t : Tree Occurrence) : Nat × Tree Occurrence :=
  removeEach (fun s => dropHeads s.removes) selectors t

/-- Removes every leaf that a selector takes; one selector after another. -/
def removeLeaves (selectors : List Selector) (t : Tree Occurrence) : Nat × Tree Occurrence :=
  removeEach (fun s t => (t.countLeaves s.removes, t.dropLeaves s.removes)) selectors t

end TermTree.Tree
