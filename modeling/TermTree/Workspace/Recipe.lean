/-
Recipes: how the terms, commands, trees, items and selectors of a step are made. Making a term draws an identity for
it, also where it is only looked at. Making a tree may read texts, copy nodes of the workspace or take whole trees out
of it, and draws a fresh identity for every new occurrence.
-/
import TermTree.Regex.Matcher
import TermTree.Selector
import TermTree.Term.Command
import TermTree.Workspace

namespace TermTree

/-- How a term is made. -/
inductive TermRecipe where
  /-- Read from a text. -/
  | read (grammar : Grammar) (t : Text)
  /-- Put together from its parts, which are not checked. -/
  | build (a : Term)
  deriving DecidableEq, Repr

/-- How a command is made. -/
inductive CommandRecipe where
  | ready (c : Command)
  | matching (pattern : PatternSource) (command : Pattern → Command)
  | byRules (rules : List (PatternSource × NameChange))
  /-- A command that looks at another term. -/
  | comparing (other : TermRecipe) (command : Term → Command)

/-- How a tree is made. -/
inductive TreeRecipe where
  /-- Read from a text. -/
  | read (grammar : Grammar) (t : Text)
  /-- Read from a text as a single leaf. -/
  | readLeaf (grammar : Grammar) (t : Text)
  | leaf (a : TermRecipe)
  | group (grammar : Grammar) (children : List TreeRecipe)
  /-- A copy of a node of the workspace. -/
  | copy (name : Text) (path : Path)
  /-- A tree of the workspace, which does not stay there. -/
  | take (name : Text)
  deriving Inhabited

/-- How an item is made. -/
inductive ItemRecipe where
  | text (t : Text)
  | tree (r : TreeRecipe)

/-- How a selector is made. -/
inductive SelectorRecipe where
  | name (t : Text)
  | term (a : TermRecipe)
  | test (p : Occurrence → Bool)

/-- Makes the term. -/
def TermRecipe.make : TermRecipe → Drawing Occurrence
  | .read g t => Occurrence.read g t
  | .build a => Occurrence.fresh a

/-- How the command is made, if what are to be its patterns are patterns. -/
def CommandRecipe.make? : CommandRecipe → Option (Drawing Command)
  | .ready c => some (pure c)
  | .matching source command => source.compile?.map fun pattern => pure (command pattern)
  | .byRules rules => do
    let rules ← rules.mapM fun (source, change) => source.compile?.map (·, change)
    return pure (.renameByRules rules)
  | .comparing other command => some do return command (← other.make).term

/-- Makes the command, and runs it on the occurrence that is held. -/
def CommandRecipe.run (r : CommandRecipe) : StateM (Held Occurrence) (Except Failure Answer) :=
  match r.make? with
  | none => pure (.error .noPattern)
  | some make => do
    let answer ← ExceptT.run do (← Editing.drawing make).run
    return answer.mapError .error

mutual

/-- Makes the tree. -/
def TreeRecipe.make : TreeRecipe → Work (Tree Occurrence)
  | .read g t => Work.drawing (Tree.readFresh g t)
  | .readLeaf g t => Work.drawing (Tree.readLeafFresh g t)
  | .leaf a => Work.drawing do return .ofOccurrence (← a.make)
  | .group g rs => do return .group g (← TreeRecipe.makeAll rs)
  | .copy name path => do
    let t ← Work.nodeAt (← Work.look name) path
    Work.drawing t.copy
  | .take name => Work.take name

/-- Makes the trees from left to right. -/
def TreeRecipe.makeAll : List TreeRecipe → Work (List (Tree Occurrence))
  | [] => return []
  | r :: rs => do return (← r.make) :: (← TreeRecipe.makeAll rs)

end

/-- Makes the item. -/
def ItemRecipe.make : ItemRecipe → Work Item
  | .text t => return .text t
  | .tree r => do return .tree (← r.make)

/-- Makes the selector. -/
def SelectorRecipe.make : SelectorRecipe → Drawing Selector
  | .name t => return .name t
  | .term a => return .term (← a.make).term
  | .test p => return .test p

end TermTree
