/-
Comparing trees. Two trees have the same shape when they nest alike; they have identical leaves when
their terms are strictly equal one by one. Grammars and identities are not compared.
-/
import TermTree.Term.Comparison
import TermTree.Tree

namespace TermTree.Tree
variable {α β : Type}

/-- The tree with nothing in its leaves. -/
def skeleton (t : Tree α) : Tree Unit := t.map fun _ => ()

theorem skeleton_map (f : α → β) (t : Tree α) : (t.map f).skeleton = t.skeleton := map_map f _ t

/-- Whether two trees have as many leaves, and these strictly equal terms in the same order. -/
def identicalLeaves (t u : Tree Term) : Bool := t.leaves.isEqv u.leaves Term.identical

end TermTree.Tree
