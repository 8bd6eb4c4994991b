/-
A workspace holds trees by name, and the supply of their identities. Work on it may fail; what was done
before it failed stays done.
-/
import TermTree.Tree.Path
import TermTree.Tree.Splice

namespace TermTree

/-- Trees by name, each name at most once, and the supply of identities. -/
structure Workspace where
  supply : Supply := {}
  trees : List (Text × Tree Occurrence) := []

/-- Why work on a workspace fails. -/
inductive Failure where
  | error (e : Error)
  /-- There is no tree of that name. -/
  | noTree
  /-- The path leads to no node of the tree. -/
  | noNode
  /-- What is to be a pattern is none. -/
  | noPattern
  deriving DecidableEq, Repr

/-- Work on a workspace. -/
abbrev Work := ExceptT Failure (StateM Workspace)

namespace Workspace

/-- The tree of a name. -/
def tree? (w : Workspace) (name : Text) : Option (Tree Occurrence) := w.trees.lookup name

/-- The workspace without the tree of a name. -/
def erase (name : Text) (w : Workspace) : Workspace := { w with trees := w.trees.filter (·.1 != name) }

/-- Puts a tree under a name, in the place of one that had it. -/
def entriesWith (name : Text) (t : Tree Occurrence) : List (Text × Tree Occurrence) → List (Text × Tree Occurrence)
  | [] => [(name, t)]
  | entry :: entries =>
    if entry.1 = name then (name, t) :: entries else entry :: entriesWith name t entries

/-- The workspace with a tree under a name. -/
def put (name : Text) (t : Tree Occurrence) (w : Workspace) : Workspace :=
  { w with trees := entriesWith name t w.trees }

end Workspace

namespace Work

/-- A result that changes nothing. -/
def ofResult (r : Except Error α) : Work α := ExceptT.mk (pure (r.mapError .error))

/-- Draws identities from the supply of the workspace. -/
def drawing (d : Drawing α) : Work α := do
  let w ← get
  let (r, supply) := d.run.run w.supply
  set { w with supply }
  ofResult r

/-- Edits something with the supply of the workspace: what is answered, and what is then held. -/
def editing {σ : Type} (e : Editing σ α) (a : σ) : Work (Except Error α × σ) := do
  let w ← get
  let (r, s) := e.run.run ⟨a, w.supply⟩
  set { w with supply := s.supply }
  return (r, s.value)

/-- The tree of a name. -/
def look (name : Text) : Work (Tree Occurrence) := do
  match (← get).tree? name with
  | some t => return t
  | none => throw .noTree

/-- Takes the tree of a name out of the workspace. -/
def take (name : Text) : Work (Tree Occurrence) := do
  let t ← look name
  modify (Workspace.erase name)
  return t

/-- Puts a tree under a name. -/
def put (name : Text) (t : Tree Occurrence) : Work Unit := modify (Workspace.put name t)

/-- The node that a path leads to in a tree. -/
def nodeAt (t : Tree Occurrence) (p : Path) : Work (Tree Occurrence) :=
  match t.get? p with
  | some c => return c
  | none => throw .noNode

end Work
end TermTree
