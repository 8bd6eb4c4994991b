/-
Running an edit on the leaves of a tree: on all of them, on the first, or on the first of each child.
An edit may have effects of its own, so these functions are stated over a monad; the effects happen
from left to right.
-/
import TermTree.Tree

namespace TermTree.Tree
variable {α β : Type} {m : Type → Type} [Monad m]

mutual

/-- Runs `f` on every leaf, depth first and left to right. -/
def visitAll (f : α → m β) : Tree α → m (Tree β)
  | leaf g a => leaf g <$> f a
  | group g cs => group g <$> visitEvery f cs

/-- Runs `f` on every leaf of the trees of a list. -/
def visitEvery (f : α → m β) : List (Tree α) → m (List (Tree β))
  | [] => pure []
  | c :: cs => do return (← visitAll f c) :: (← visitEvery f cs)

end

/-- Runs `f` on the leaf at the end of the chain of first children, if the chain ends in one. -/
def visitFirst (f : α → m α) : Tree α → m (Tree α)
  | leaf g a => leaf g <$> f a
  | group g [] => pure (group g [])
  | group g (c :: cs) => (fun c => group g (c :: cs)) <$> visitFirst f c

/-- Runs `f` on the first leaf of each child; on a leaf, on itself. -/
def visitHeads (f : α → m α) : Tree α → m (Tree α)
  | leaf g a => leaf g <$> f a
  | group g cs => group g <$> cs.mapM (visitFirst f)

/-- Runs `f` on the first leaf of each child but the first child. -/
def visitRest (f : α → m α) : Tree α → m (Tree α)
  | leaf g a => pure (leaf g a)
  | group g [] => pure (group g [])
  | group g (c :: cs) => (fun cs => group g (c :: cs)) <$> cs.mapM (visitFirst f)

theorem visitEvery_eq_mapM [LawfulMonad m] (f : α → m β) (cs : List (Tree α)) :
    visitEvery f cs = cs.mapM (visitAll f) := by
  induction cs with
  | nil => rfl
  | cons c cs ih => simp [visitEvery, ih]

theorem visitAll_group [LawfulMonad m] (f : α → m β) (g : Grammar) (cs : List (Tree α)) :
    visitAll f (group g cs) = group g <$> cs.mapM (visitAll f) := by
  rw [visitAll, visitEvery_eq_mapM]

/-- The tree with a fresh identity for each term, given from left to right. -/
def identify (t : Tree Term) : StateM Supply (Tree Occurrence) := t.visitAll Occurrence.fresh

/-- The tree without the identities. -/
def forget (t : Tree Occurrence) : Tree Term := t.map (·.term)

/-- A copy of a tree: the same terms with fresh identities. -/
def copy (t : Tree Occurrence) : StateM Supply (Tree Occurrence) := t.forget.identify

end TermTree.Tree
