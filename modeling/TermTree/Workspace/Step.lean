/-
Steps on a workspace, as data, and what a step answers. The trees and items that a step brings are made
first; then the tree it works on is looked up, then the node; only then is the node edited, in place. The tree is put
back with the node as the edit left it, whether it failed or not.
-/
import TermTree.Tree.Removal
import TermTree.Tree.Selection
import TermTree.Workspace.Recipe

namespace TermTree

/-- The leaves that an edit is run on. -/
inductive Visiting where
  /-- The first leaf of each child. -/
  | heads
  | all
  | first
  /-- The first leaf of each child but the first. -/
  | rest
  deriving DecidableEq, Repr

/-- Edits of the list of children. -/
inductive ChildrenEdit where
  | reverse
  | clear
  | truncate (n : Nat)
  deriving DecidableEq, Repr

/-- What to do with a selection besides making it. -/
structure SelectionPlan where
  selector : SelectorRecipe
  commands : List CommandRecipe := []
  /-- A new name for the term of the last selected leaf. -/
  renameLast : Option Text := none
  /-- The index of a selected leaf whose text is asked for. -/
  get : Option Nat := none
  /-- The name that a copy of the selected leaves is stored under. -/
  save : Option Text := none

/-- What is done at a node. -/
inductive Action where
  /-- Nothing but showing the node. -/
  | view
  /-- Runs commands on the term of a leaf. -/
  | run (commands : List CommandRecipe)
  | visit (which : Visiting) (commands : List CommandRecipe)
  | replaceChild (target : Id) (items : List ItemRecipe)
  | append (items : List ItemRecipe)
  | prepend (items : List ItemRecipe)
  | removeHeads (selectors : List SelectorRecipe)
  | removeLeaves (selectors : List SelectorRecipe)
  | select (plan : SelectionPlan)
  /-- Runs commands on the term with an identity. -/
  | runOn (target : Id) (commands : List CommandRecipe)
  | editChildren (edit : ChildrenEdit)
  /-- Puts another tree in the place of the node, which keeps its grammar. -/
  | become (node : TreeRecipe)

/-- A step on a workspace. -/
inductive Step where
  | store (name : Text) (node : TreeRecipe)
  | join (name : Text) (items : List ItemRecipe)
  | detach (source first rest : Text)
  /-- Makes the tree a root of its own, with another grammar if it is a group. -/
  | regroup (name : Text) (grammar : Grammar)
  | act (name : Text) (path : Path) (action : Action)

/-- What running commands on a term answers. -/
abbrev Answers := List (Except Failure Answer)

/-- What is told of a selection. -/
structure SelectionReport where
  ids : List Id
  names : List Text
  before : Text
  answers : List Answers
  after : Text
  got : Option Text
  /-- The copy of the selected leaves, with the name that it is stored under. -/
  saved : Option (Text × Tree Occurrence)

/-- What a step answers. -/
inductive Reply where
  | done
  | node (t : Tree Occurrence)
  | answers (answers : Answers)
  | visits (visits : List (Id × Answers))
  | verdict (b : Bool)
  | count (n : Nat)
  | selection (report : SelectionReport)
  /-- The answers for a term with an identity, if there is one. -/
  | found (answers : Option Answers)
  | halves (first rest : Tree Occurrence)

/-- The answers of the occurrences that commands were run on. -/
abbrev Visits := List (Id × Answers)

/-- What commands make of a term; what they answer is noted. -/
def CommandRecipe.rewrite (commands : List CommandRecipe) (a : Occurrence) : StateM (Held Visits) Term := do
  let s ← get
  let (answers, after) := (commands.mapM CommandRecipe.run).run ⟨a, s.supply⟩
  set { s with value := s.value ++ [(a.id, answers)], supply := after.supply }
  return after.value.term

/-- Runs commands on an occurrence, and notes what they answer. -/
def CommandRecipe.runOn (commands : List CommandRecipe) : Occurrence → StateM (Held Visits) Occurrence :=
  Occurrence.edit (CommandRecipe.rewrite commands)

/-- The children after an edit. -/
def ChildrenEdit.apply {α : Type} : ChildrenEdit → List α → List α
  | .reverse, cs => cs.reverse
  | .clear, _ => []
  | .truncate n, cs => cs.take n

/-- Runs an edit on the leaves of a tree that are meant. -/
def Visiting.run (m : Type → Type) [Monad m] (f : Occurrence → m Occurrence) :
    Visiting → Tree Occurrence → m (Tree Occurrence)
  | .heads, t => t.visitHeads f
  | .all, t => t.visitAll f
  | .first, t => t.visitFirst f
  | .rest, t => t.visitRest f

/-- Tells what has become of a selection, whose leaves answered as `visits` says; a copy is made if one is to be
stored. -/
def SelectionPlan.report (plan : SelectionPlan) (before : Selection) (visits : Visits) :
    Editing (Tree Occurrence) SelectionReport := do
  let after : Selection := { before with tree := ← Editing.held }
  let saved ←
    match plan.save with
    | none => pure none
    | some name => pure (some (name, ← Editing.drawing after.toTree))
  return {
    ids := before.ids
    names := before.occurrences.map (·.term.name)
    before := before.toText
    answers := visits.map (·.2)
    after := after.toText
    got := plan.get.bind fun i => (after.get? i).map Tree.toText
    saved }

/-- Carries out a plan on the leaves of the node that is held. -/
def SelectionPlan.run (plan : SelectionPlan) : Editing (Tree Occurrence) SelectionReport := do
  let selector ← Editing.drawing plan.selector.make
  let before := (← Editing.held).select selector
  let visits ← Editing.through (fun _ => do return (← before.visit (CommandRecipe.runOn plan.commands)).tree) []
  if let some name := plan.renameLast then
    let edited : Selection := { before with tree := ← Editing.held }
    Editing.put (Id.run (edited.visitLast (Occurrence.edit fun a => pure (a.term.setName name)))).tree
  plan.report before visits

/-- What an action does at a node, in place, once everything that it brings is made. -/
abbrev NodeEdit := Editing (Tree Occurrence) Reply

/-- Makes what an action brings, and gives what it then does at the node. -/
def Action.prepare : Action → Work NodeEdit
  | .view => return do return .node (← Editing.held)
  | .run commands => return do
    let _ ← Editing.ofResult (← Editing.held).content
    let visits ← Editing.through (Tree.visitLeaf (CommandRecipe.runOn commands)) []
    return .answers (visits.flatMap (·.2))
  | .visit which commands => return do
    return .visits (← Editing.through (which.run _ (CommandRecipe.runOn commands)) [])
  | .replaceChild target items => do
    let items ← items.mapM ItemRecipe.make
    return do return .verdict (← TreeEdit.replaceChild target items)
  | .append items => do
    let items ← items.mapM ItemRecipe.make
    return do
      TreeEdit.append items
      return .done
  | .prepend items => do
    let items ← items.mapM ItemRecipe.make
    return do
      TreeEdit.prepend items
      return .done
  | .removeHeads selectors => do
    let selectors ← selectors.mapM fun s => Work.drawing s.make
    return do
      let (n, t) := (← Editing.held).removeHeads selectors
      Editing.put t
      return .count n
  | .removeLeaves selectors => do
    let selectors ← selectors.mapM fun s => Work.drawing s.make
    return do
      let (n, t) := (← Editing.held).removeLeaves selectors
      Editing.put t
      return .count n
  | .select plan => return do return .selection (← plan.run)
  | .runOn target commands => return do
    let t ← Editing.held
    match t.visitId (CommandRecipe.runOn commands) target with
    | none => return .found none
    | some work => return .found (some ((← Editing.through (fun _ => work) []).flatMap (·.2)))
  | .editChildren edit => return do
    let t ← Editing.held
    let cs := edit.apply (← Editing.ofResult t.children)
    Editing.put (.group t.grammar cs)
    return .count cs.length
  | .become node => do
    let new ← node.make
    return do
      Editing.put (new.withGrammar (← Editing.held).grammar)
      return .done

/-- Stores the copy that was made, if it has a name to be stored under. -/
def Work.storeCopy : Except Error Reply → Work Unit
  | .ok (.selection report) =>
    match report.saved with
    | none => return
    | some (name, copy) => Work.put name copy
  | _ => return

namespace Step

/-- Runs a step. -/
def run : Step → Work Reply
  | store name node => do
    Work.put name (← node.make)
    return .done
  | join name items => do
    let items ← items.mapM ItemRecipe.make
    Work.put name (← Work.drawing (Tree.join items))
    return .done
  | detach source first rest => do
    let (f, r) ← Work.ofResult (← Work.take source).detachFirst
    Work.put first f
    Work.put rest r
    return .halves f r
  | regroup name g => do
    Work.put name ((← Work.take name).regroup g)
    return .done
  | act name path action => do
    let edit ← action.prepare
    let t ← Work.look name
    let node ← Work.nodeAt t path
    let (reply, node) ← Work.editing edit node
    Work.storeCopy reply
    Work.put name (t.setAt path node)
    Work.ofResult reply

end Step
end TermTree
