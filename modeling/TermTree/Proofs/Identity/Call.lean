/-
The calls by which a program builds, changes and copies what it holds. A call is handed things, some to look at or
to change in place and some for good, and gives things back (`Call.run`). Either it edits terms and then nothing
else about the things changes, so that the trees of identities stay as they are (`Call.run_of_isEdit`), or it moves
occurrences as they are and gives fresh ones (`Call.moves`). A copy is as its original and all fresh
(`Call.run_copy`).
-/
import TermTree.Proofs.Identity.Growing
import TermTree.Proofs.Identity.Splicing
import TermTree.Proofs.Tree.Place

namespace TermTree

/-! ## Things -/

/-- An occurrence on its own, or a tree. -/
inductive Thing (α : Type) where
  | single (a : α)
  | tree (t : Tree α)

namespace Thing
variable {α β : Type}

/-- All that a thing carries. -/
def carried : Thing α → List α
  | single a => [a]
  | tree t => t.leaves

def map (f : α → β) : Thing α → Thing β
  | single a => single (f a)
  | tree t => tree (t.map f)

/-- Two things of the same shape, with strictly equal terms in the same order. -/
def Alike : Thing Occurrence → Thing Occurrence → Prop
  | single a, single b => a.term.identical b.term = true
  | tree t, tree u => t.skeleton = u.skeleton ∧ Tree.identicalLeaves t.forget u.forget = true
  | _, _ => False

@[simp] theorem carried_map (f : α → β) (x : Thing α) : (x.map f).carried = x.carried.map f := by
  cases x with
  | single a => rfl
  | tree t => exact Tree.leaves_map f t

end Thing

/-! ## Calls -/

/-- A node of a tree. -/
structure Spot where
  tree : Tree Occurrence
  path : Path
  node : Tree Occurrence
  found : tree.get? path = some node

/-- The whole tree with another one in the place of the node. -/
def Spot.put (spot : Spot) (new : Tree Occurrence) : Tree Occurrence := spot.tree.setAt spot.path new

/-- What can be copied. -/
inductive Original where
  /-- An occurrence, on its own or in a tree. -/
  | occurrence (a : Occurrence) (holder : Thing Occurrence) (mem : a ∈ holder.carried)
  | node (spot : Spot)
  /-- The leaves of a node that are selected, as a group. -/
  | selected (spot : Spot) (paths : List Path)

namespace Original

/-- What holds the original. -/
def holder : Original → Thing Occurrence
  | occurrence _ x _ => x
  | node spot => .tree spot.tree
  | selected spot _ => .tree spot.tree

/-- The original as a thing of its own. -/
def thing : Original → Thing Occurrence
  | occurrence a _ _ => .single a
  | node spot => .tree spot.node
  | selected spot paths => .tree (.group spot.node.grammar (Selection.nodes ⟨spot.node, paths⟩))

def copy : Original → StateM Supply (Thing Occurrence)
  | occurrence a _ _ => .single <$> Occurrence.fresh a.term
  | node spot => .tree <$> spot.node.copy
  | selected spot paths => .tree <$> Selection.toTree ⟨spot.node, paths⟩

end Original

/-- The children that an edit takes out. -/
def ChildrenEdit.dropped {α : Type} : ChildrenEdit → List α → List α
  | .reverse, _ => []
  | .clear, cs => cs
  | .truncate n, cs => cs.drop n

theorem ChildrenEdit.perm_apply {α : Type} (edit : ChildrenEdit) (cs : List α) :
    (edit.apply cs ++ edit.dropped cs).Perm cs := by
  cases edit with
  | reverse => simp [apply, dropped]
  | clear => exact .refl _
  | truncate n => exact .of_eq (List.take_append_drop n cs)

/-- What can be done to a node in place. -/
inductive Change : Type 1 where
  | append (items : List Item)
  | prepend (items : List Item)
  | replaceChild (target : Id) (items : List Item)
  | removeHeads (selectors : List Selector)
  | removeLeaves (selectors : List Selector)
  | editChildren (edit : ChildrenEdit)
  /-- Another tree takes the place of the node, which keeps its grammar. -/
  | become (new : Tree Occurrence)
  | visit {σ : Type} (which : Visiting) (f : TermEdit σ) (start : σ)
  /-- An edit of the leaves that are selected. -/
  | visitSelected {σ : Type} (paths : List Path) (f : TermEdit σ) (start : σ)

namespace Change

/-- The items that are put into the tree. -/
def items : Change → List Item
  | append items => items
  | prepend items => items
  | replaceChild _ items => items
  | become new => [.tree new]
  | _ => []

def isEdit : Change → Bool
  | visit .. => true
  | visitSelected .. => true
  | _ => false

/-- The node after the change. -/
def run : Change → Tree Occurrence → Drawing (Tree Occurrence)
  | append items, t => t.append items
  | prepend items, t => t.prepend items
  | replaceChild target items, t => do return (← t.replaceChild target items).2
  | removeHeads selectors, t => pure (t.removeHeads selectors).2
  | removeLeaves selectors, t => pure (t.removeLeaves selectors).2
  | editChildren edit, t => do return .group t.grammar (edit.apply (← Drawing.ofResult t.children))
  | become new, t => pure (new.withGrammar t.grammar)
  | visit which f start, t => Drawing.holding (which.run _ f.edit t) start
  | visitSelected paths f start, t => do return (← Drawing.holding (Selection.visit f.edit ⟨t, paths⟩) start).tree

/-- What a change of a node leaves out. -/
def Omits : Change → Tree Occurrence → Occurrence → Prop
  | replaceChild target items, t, a => Tree.Replaced target items t a
  | removeHeads selectors, _, a => Tree.Removed selectors a
  | removeLeaves selectors, _, a => Tree.Removed selectors a
  | editChildren edit, t, a => a ∈ (edit.dropped t.members).flatMap Tree.leaves
  | become _, t, a => a ∈ t.leaves
  | _, _, _ => False

end Change

/-- A call of the library. -/
inductive Call : Type 1 where
  | read (g : Grammar) (t : Text)
  | readLeaf (g : Grammar) (t : Text)
  | readTerm (g : Grammar) (t : Text)
  /-- A term from its parts. -/
  | build (a : Term)
  | leaf (a : Occurrence)
  | group (g : Grammar) (children : List (Tree Occurrence))
  | copy (original : Original)
  | join (items : List Item)
  | detachFirst (t : Tree Occurrence)
  /-- Makes a tree a root of its own. -/
  | regroup (g : Grammar) (t : Tree Occurrence)
  | change (spot : Spot) (change : Change)
  /-- An edit of an occurrence on its own. -/
  | edit {σ : Type} (a : Occurrence) (f : TermEdit σ) (start : σ)
  | drop (x : Thing Occurrence)

namespace Call

/-- What the call is handed to look at or to change; it stays where it is if the call fails. -/
def lent : Call → List (Thing Occurrence)
  | copy original => [original.holder]
  | change spot _ => [.tree spot.tree]
  | edit a _ _ => [.single a]
  | _ => []

/-- The trees among the items. -/
def itemThings (items : List Item) : List (Thing Occurrence) :=
  items.filterMap fun
    | .text _ => none
    | .tree t => some (.tree t)

/-- What the call is handed for good. -/
def passed : Call → List (Thing Occurrence)
  | leaf a => [.single a]
  | group _ cs => cs.map .tree
  | join items => itemThings items
  | detachFirst t => [.tree t]
  | regroup _ t => [.tree t]
  | change _ c => itemThings c.items
  | drop x => [x]
  | _ => []

/-- All that the call is handed. -/
def taken (c : Call) : List (Thing Occurrence) := c.lent ++ c.passed

/-- What the call gives back. -/
def run : Call → Drawing (List (Thing Occurrence))
  | read g t => do return [.tree (← Tree.readFresh g t)]
  | readLeaf g t => do return [.tree (← Tree.readLeafFresh g t)]
  | readTerm g t => do return [.single (← Occurrence.read g t)]
  | build a => do return [.single (← Occurrence.fresh a)]
  | leaf a => return [.tree (.ofOccurrence a)]
  | group g cs => return [.tree (.group g cs)]
  | copy original => do return [original.holder, ← original.copy]
  | join items => do return [.tree (← Tree.join items)]
  | detachFirst t => do
    let (first, rest) ← Drawing.ofResult t.detachFirst
    return [.tree first, .tree rest]
  | regroup g t => return [.tree (t.regroup g)]
  | change spot c => do return [.tree (spot.put (← c.run spot.node))]
  | edit a f start => do return [.single (← Drawing.holding (f.edit a) start)]
  | drop _ => return []

def isEdit : Call → Bool
  | change _ c => c.isEdit
  | edit .. => true
  | _ => false

/-- What a call that succeeds leaves out. -/
def Omits : Call → Occurrence → Prop
  | change spot c, a => c.Omits spot.node a
  | drop x, a => a ∈ x.carried
  | _, _ => False

/-- What the program has back when the call is done. -/
def back (c : Call) : Except Error (List (Thing Occurrence)) → List (Thing Occurrence)
  | .ok given => given
  | .error _ => c.lent

/-- What is no longer held when the call is done. -/
def Discards (c : Call) : Except Error (List (Thing Occurrence)) → Occurrence → Prop
  | .ok _, a => c.Omits a
  | .error _, a => a ∈ c.passed.flatMap Thing.carried

end Call

/-! ## Calls that move occurrences -/

theorem Change.moves {c : Change} (h : c.isEdit = false) (t : Tree Occurrence) :
    (c.run t).Moves (c.Omits t) (t.leaves ++ c.items.flatMap Item.occurrences) Tree.leaves := by
  cases c with
  | append items => exact Tree.moves_append items t
  | prepend items => exact Tree.moves_prepend items t
  | replaceChild target items =>
    exact (Tree.moves_replaceChild target items t).bind fun r => Drawing.moves_pure (.refl _)
  | removeHeads selectors =>
    have hsheds := Tree.sheds_removeHeads selectors t
    rw [← List.append_nil t.leaves] at hsheds
    exact Drawing.moves_pure hsheds
  | removeLeaves selectors =>
    have hsheds := Tree.sheds_removeLeaves selectors t
    rw [← List.append_nil t.leaves] at hsheds
    exact Drawing.moves_pure hsheds
  | editChildren edit =>
    cases t with
    | leaf g a => exact Drawing.moves_throw _
    | group g cs =>
      refine Drawing.moves_pure ⟨(edit.dropped cs).flatMap Tree.leaves, ?_, fun a ha => ha⟩
      show List.Perm _ ((Tree.group g cs).leaves ++ [])
      rw [Tree.leaves_group, Tree.leaves_group, ← List.flatMap_append, List.append_nil]
      exact (edit.perm_apply cs).flatMap_right Tree.leaves
  | become new =>
    refine Drawing.moves_pure ⟨t.leaves, ?_, fun a ha => ha⟩
    rw [Tree.leaves_withGrammar, items, List.flatMap_singleton]
    exact List.perm_append_comm
  | visit => contradiction
  | visitSelected => contradiction

theorem Spot.moves_put {Gone : Occurrence → Prop} {rest : List Occurrence} (spot : Spot)
    {d : Drawing (Tree Occurrence)} (hd : d.Moves Gone (spot.node.leaves ++ rest) Tree.leaves) :
    (do return [.tree (spot.put (← d))] : Drawing (List (Thing Occurrence))).Moves Gone (spot.tree.leaves ++ rest)
      fun xs => xs.flatMap Thing.carried := by
  obtain ⟨before, after, hleaves, hput⟩ := Tree.leaves_setAt spot.found
  refine ((hd.frame (before ++ after)).of_perm ?_ fun _ => .refl _).bind fun new => Drawing.moves_pure ?_
  · refine List.perm_iff_count.2 fun a => ?_
    simp only [hleaves, List.count_append]
    omega
  · refine .of_perm (List.perm_iff_count.2 fun a => ?_)
    simp only [List.flatMap_cons, List.flatMap_nil, Thing.carried, Spot.put, hput, List.count_append, List.count_nil]
    omega

theorem Call.carried_itemThings (items : List Item) :
    (itemThings items).flatMap Thing.carried = items.flatMap Item.occurrences := by
  induction items with
  | nil => rfl
  | cons item items ih =>
    cases item with
    | text t => simpa [itemThings, Item.occurrences] using ih
    | tree t => simpa [itemThings, Item.occurrences, Thing.carried] using ih

/-! ## Copies -/

theorem Original.fresh_copy (o : Original) (s : Supply) : s.Fresh (o.copy.run s).2 (o.copy.run s).1.carried := by
  cases o with
  | occurrence a x hx => exact Occurrence.fresh_run s a.term
  | node spot => exact Tree.fresh_copy s spot.node
  | selected spot paths =>
    rw [copy, Tree.selection_toTree]
    exact Tree.fresh_copy s _

theorem Thing.alike_tree {t u : Tree Occurrence} (h : t.forget = u.forget) : Alike (.tree t) (.tree u) := by
  refine ⟨?_, ?_⟩
  · rw [← Tree.skeleton_forget, h, Tree.skeleton_forget]
  · rw [h]
    exact Tree.identicalLeaves_self _

theorem Original.alike_copy (o : Original) (s : Supply) : (o.copy.run s).1.Alike o.thing := by
  cases o with
  | occurrence a x hx =>
    show Term.identical a.term a.term = true
    simp [Term.identical]
  | node spot => exact Thing.alike_tree (Tree.forget_copy s spot.node)
  | selected spot paths =>
    rw [copy, Tree.selection_toTree]
    exact Thing.alike_tree (Tree.forget_copy s _)

namespace Call

/-- A copy is made whatever the supply. It is as its original, and every identity in it is fresh; what holds the
original is not touched. -/
theorem run_copy (o : Original) (s : Supply) :
    ∃ k s', (copy o).run.run.run s = (.ok [o.holder, k], s') ∧ k.Alike o.thing ∧ s.Fresh s' k.carried :=
  ⟨_, _, rfl, o.alike_copy s, o.fresh_copy s⟩

/-- A call that is no edit moves what it takes, and what it does not give back it omits. -/
theorem moves {c : Call} (h : c.isEdit = false) :
    c.run.Moves c.Omits (c.taken.flatMap Thing.carried) fun xs => xs.flatMap Thing.carried := by
  cases c with
  | read g t =>
    refine (Tree.moves_readFresh g t).bind fun n => Drawing.moves_pure (.of_perm (.of_eq ?_))
    simp [Thing.carried]
  | readLeaf g t =>
    refine (Tree.moves_readLeafFresh g t).bind fun n => Drawing.moves_pure (.of_perm (.of_eq ?_))
    simp [Thing.carried]
  | readTerm g t => exact (Tree.moves_readOccurrence g t).bind fun a => Drawing.moves_pure (.refl _)
  | build a => exact fun s => .of_fresh (Occurrence.fresh_run s a)
  | leaf a =>
    exact Drawing.moves_pure (.of_perm (.of_eq (by simp [Thing.carried, Tree.ofOccurrence, taken, lent, passed])))
  | group g cs =>
    exact Drawing.moves_pure (.of_perm (.of_eq (by simp [Thing.carried, List.flatMap_map, taken, lent, passed])))
  | copy o =>
    have hcopy : (monadLift o.copy : Drawing (Thing Occurrence)).Moves (copy o).Omits [] Thing.carried :=
      Drawing.moves_lift fun s => .of_fresh (o.fresh_copy s)
    have htaken : (copy o).taken.flatMap Thing.carried = [] ++ o.holder.carried := List.append_nil _
    rw [htaken]
    refine (hcopy.frame o.holder.carried).bind fun k => Drawing.moves_pure (.of_perm ?_)
    simpa using List.perm_append_comm
  | join items =>
    have htaken : (join items).taken.flatMap Thing.carried = items.flatMap Item.occurrences := carried_itemThings items
    rw [htaken]
    refine (Tree.moves_join items).bind fun n => Drawing.moves_pure (.of_perm (.of_eq ?_))
    simp [Thing.carried]
  | detachFirst t =>
    have htaken : (detachFirst t).taken.flatMap Thing.carried = t.leaves := List.append_nil _
    rw [htaken]
    refine (Tree.moves_detachFirst t).bind fun halves => Drawing.moves_pure (.of_perm (.of_eq ?_))
    simp [Thing.carried]
  | regroup g t =>
    refine Drawing.moves_pure (.of_perm (.of_eq ?_))
    simp [Thing.carried, Tree.leaves_regroup, taken, lent, passed]
  | change spot c =>
    have htaken : (change spot c).taken.flatMap Thing.carried =
        spot.tree.leaves ++ c.items.flatMap Item.occurrences := by
      rw [← carried_itemThings]
      rfl
    rw [htaken]
    exact spot.moves_put (c.moves h spot.node)
  | edit => contradiction
  | drop x =>
    have htaken : (drop x).taken.flatMap Thing.carried = [] ++ x.carried := List.append_nil _
    rw [htaken]
    exact Drawing.moves_pure (.of_forall fun a ha => ha)

end Call

/-! ## Calls that edit terms -/

theorem Change.run_of_isEdit {c : Change} (h : c.isEdit = true) (t : Tree Occurrence) (s : Supply) :
    ∃ u s', (c.run t).run.run s = (.ok u, s') ∧ s.next ≤ s'.next ∧ u.map (·.id) = t.map (·.id) := by
  cases c with
  | visit which f start =>
    exact ⟨_, _, rfl, Tree.grows_visit f.grows_edit which t ⟨start, s⟩, Tree.map_id_visit f.run which t ⟨start, s⟩⟩
  | visitSelected paths f start =>
    exact ⟨_, _, rfl, Tree.grows_visit_selection f.grows_edit ⟨t, paths⟩ ⟨start, s⟩,
      Tree.map_id_visit_selection f.run ⟨t, paths⟩ ⟨start, s⟩⟩
  | _ => contradiction

/-- An edit never fails, and keeps the identities of what it edits in their places. What it draws is lost. -/
theorem Call.run_of_isEdit {c : Call} (h : c.isEdit = true) (s : Supply) :
    ∃ given s', c.run.run.run s = (.ok given, s') ∧ s.next ≤ s'.next ∧
      given.map (Thing.map (·.id)) = c.taken.map (Thing.map (·.id)) := by
  cases c with
  | change spot c =>
    obtain ⟨u, s', hu, hle, hids⟩ := Change.run_of_isEdit h spot.node s
    refine ⟨[.tree (spot.put u)], s', Outcome.run_bind_ok hu, hle, ?_⟩
    have hput : (spot.put u).map (·.id) = spot.tree.map (·.id) := Tree.map_setAt spot.found hids
    cases c with
    | visit => simp [Thing.map, hput, taken, lent, passed, itemThings, Change.items]
    | visitSelected => simp [Thing.map, hput, taken, lent, passed, itemThings, Change.items]
    | _ => contradiction
  | edit a f start => exact ⟨_, _, rfl, f.grows_edit a ⟨start, s⟩, rfl⟩
  | _ => contradiction

end TermTree
