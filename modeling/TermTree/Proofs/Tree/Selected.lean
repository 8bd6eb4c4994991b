/-
Editing through a selection. A selection goes from path to path and edits the tree at each; a visit of all leaves goes
through the tree once. To see that they come to the same, a run over the paths into one child is a change of that child
alone (`foldlM_visitAt_child`), so a run over the paths of all children takes the children one after another
(`foldlM_visitAt_pathsFrom`). The edit may have effects of any kind: both ways have the same ones in the same order.
-/
import TermTree.Proofs.Identity.Splicing
import TermTree.Proofs.Tree.Visit

namespace TermTree
namespace Tree
variable {α : Type}

/-! ## From path to path -/

section
variable {m : Type → Type} [Monad m] (f : α → m α)

theorem visitAt_child (g : Grammar) (before after : List (Tree α)) (c : Tree α) (p : Path) :
    (group g (before ++ c :: after)).visitAt f (before.length :: p) =
      (fun c => group g (before ++ c :: after)) <$> c.visitAt f p := by
  have hc : (before ++ c :: after)[before.length]? = some c := by simp
  have hset : ∀ d, (before ++ c :: after).set before.length d = before ++ d :: after := fun d => by simp
  simp only [visitAt, modifyAt, hc, hset]

variable [LawfulMonad m]

/-- Edits at paths into one child are edits of that child. -/
theorem foldlM_visitAt_child (g : Grammar) (before after : List (Tree α)) (ps : List Path) (c : Tree α) :
    (ps.map (before.length :: ·)).foldlM (fun t p => t.visitAt f p) (group g (before ++ c :: after)) =
      (fun c => group g (before ++ c :: after)) <$> ps.foldlM (fun t p => t.visitAt f p) c := by
  induction ps generalizing c with
  | nil => simp
  | cons p ps ih => simp only [List.map_cons, List.foldlM_cons, visitAt_child, bind_map_left, map_bind, ih]

variable {test : α → Bool}

theorem foldlM_visitAt_pathsFrom (g : Grammar) {cs : List (Tree α)}
    (ih : ∀ c ∈ cs, (c.pathsWhere test).foldlM (fun t p => t.visitAt f p) c = c.visitAll (onlyWhere test f))
    (before : List (Tree α)) :
    (pathsFrom test before.length cs).foldlM (fun t p => t.visitAt f p) (group g (before ++ cs)) =
      (fun ds => group g (before ++ ds)) <$> cs.mapM (visitAll (onlyWhere test f)) := by
  induction cs generalizing before with
  | nil => simp [pathsFrom]
  | cons c cs ihcs =>
    have hcs : ∀ d, (pathsFrom test (before.length + 1) cs).foldlM (fun t p => t.visitAt f p)
        (group g (before ++ d :: cs)) = (fun ds => group g (before ++ d :: ds)) <$> cs.mapM (visitAll (onlyWhere test f)) := by
      intro d
      simpa using ihcs (fun e he => ih e (List.mem_cons_of_mem c he)) (before ++ [d])
    rw [pathsFrom, List.foldlM_append, foldlM_visitAt_child, ih c List.mem_cons_self, bind_map_left, List.mapM_cons]
    simp only [hcs, map_bind, bind_pure_comp, Functor.map_map]

/-- **Edits at the paths of the leaves that pass a test, one after another, are one visit that edits these leaves.** An
edit may change what the test says of a leaf; it was asked before. -/
theorem foldlM_visitAt_pathsWhere (t : Tree α) :
    (t.pathsWhere test).foldlM (fun t p => t.visitAt f p) t = t.visitAll (onlyWhere test f) := by
  induction t using induction with
  | leaf g a =>
    rw [visitAll, onlyWhere, pathsWhere]
    split
    · simp [visitAt, modifyAt, visitLeaf]
    · simp
  | group g cs ih =>
    rw [pathsWhere, visitAll_group]
    exact foldlM_visitAt_pathsFrom f g ih []

end
end Tree

/-! ## Selections -/

namespace Selection
open TermTree.Tree

/-- Every path leads to a leaf. -/
def OnLeaves (sel : Selection) : Prop := ∀ p ∈ sel.paths, ∃ g a, sel.tree.get? p = some (leaf g a)

section
variable (t : Tree Occurrence) (s : Selector)

theorem onLeaves_select : (t.select s).OnLeaves := by
  intro p hp
  obtain ⟨g, a, hget, -⟩ := mem_pathsWhere.1 hp
  exact ⟨g, a, hget⟩

theorem nodes_select : (t.select s).nodes = t.leafNodes.filter (isLeafWhere s.selects) :=
  filterMap_of_map_eq (map_get?_pathsWhere s.selects t)

theorem occurrences_select : (t.select s).occurrences = t.leaves.filter s.selects := by
  rw [occurrences, nodes_select]
  exact filterMap_of_map_eq (map_content?_leafNodes s.selects t)

/-- An edit through the selection is a visit of the tree. -/
theorem tree_visit_select {m : Type → Type} [Monad m] [LawfulMonad m] (f : Occurrence → m Occurrence) :
    Selection.tree <$> (t.select s).visit f = t.visitAll (onlyWhere s.selects f) := by
  rw [← foldlM_visitAt_pathsWhere, visit, map_bind]
  simp only [map_pure, bind_pure]
  rfl

variable {σ : Type} (f : Occurrence → StateM σ Occurrence) (st : σ)

theorem run_visit_select : ((t.select s).visit f).run st =
    (⟨((t.visitAll (onlyWhere s.selects f)).run st).1, (t.select s).paths⟩,
      ((t.visitAll (onlyWhere s.selects f)).run st).2) := by
  rw [← tree_visit_select]
  rfl

theorem onLeaves_visit_select : (((t.select s).visit f).run st).1.OnLeaves := by
  rw [run_visit_select]
  intro p hp
  obtain ⟨g, a, hget⟩ := onLeaves_select t s p hp
  obtain ⟨st', hget'⟩ := get?_run_visitAll (onlyWhere s.selects f) hget st
  exact ⟨g, _, hget'⟩

end

theorem OnLeaves.run_toTree {sel : Selection} (h : sel.OnLeaves) (supply : Supply) :
    ∃ cs, (sel.toTree.run supply).1 = group sel.tree.grammar cs ∧ (∀ c ∈ cs, c.shape = .leaf) ∧
      (group sel.tree.grammar cs).forget = (group sel.tree.grammar sel.nodes).forget ∧
      supply.Fresh (sel.toTree.run supply).2 (cs.flatMap leaves) := by
  have hforget := forget_copy supply (group sel.tree.grammar sel.nodes)
  have hfresh := fresh_copy supply (group sel.tree.grammar sel.nodes)
  rw [← selection_toTree] at hforget hfresh
  cases hcopy : (sel.toTree.run supply).1 with
  | leaf g a =>
    rw [hcopy, forget_leaf, forget_group] at hforget
    contradiction
  | group g cs =>
    rw [hcopy] at hforget hfresh
    rw [leaves_group] at hfresh
    have hparts := hforget
    rw [forget_group, forget_group] at hparts
    obtain ⟨rfl, hcs⟩ := group.inj hparts
    refine ⟨cs, rfl, fun c hc => ?_, hforget, hfresh⟩
    -- a copy has the shape of the selected node that it is a copy of
    have hmem : c.forget ∈ sel.nodes.map forget := hcs ▸ List.mem_map_of_mem hc
    obtain ⟨n, hn, heq⟩ := List.mem_map.1 hmem
    obtain ⟨p, hp, hget⟩ := List.mem_filterMap.1 hn
    obtain ⟨k, a, hleaf⟩ := h p hp
    rw [hget] at hleaf
    cases hleaf
    rw [← shape_forget, ← heq, shape_forget]
    rfl

end Selection

namespace Tree

/-- **Editing through a selection is a visit of all leaves that edits those selected beforehand**, whatever the edit
and its effects. The selected leaves are those that the selector takes, in the order of the leaves, and these are what
the edit is handed; nothing else is touched. A copy of them, made before or after an edit, is a flat group with the
grammar of the tree and the same terms, under fresh identities. -/
theorem visit_select (t : Tree Occurrence) (s : Selector) :
    (∀ (m : Type → Type) [Monad m] [LawfulMonad m] (f : Occurrence → m Occurrence),
      Selection.tree <$> (t.select s).visit f = t.visitAll fun a => if s.selects a then f a else pure a) ∧
    (t.select s).ids = (t.leaves.filter s.selects).map (·.id) ∧
    (∀ (σ : Type) (f : Occurrence → StateM σ Occurrence) (st : σ),
      (((t.select s).visit (noting f)).run (st, [])).2.2 = t.leaves.filter s.selects ∧
      SameBut (fun _ a => s.selects a = true) t (((t.select s).visit f).run st).1.tree) ∧
    ∀ sel : Selection, (sel = t.select s ∨ ∃ (σ : Type) (f : Occurrence → StateM σ Occurrence) (st : σ),
        sel = (((t.select s).visit f).run st).1) →
      ∀ supply, ∃ cs, (sel.toTree.run supply).1 = group t.grammar cs ∧ (∀ c ∈ cs, c.shape = .leaf) ∧
        identicalLeaves (group t.grammar cs).forget (group t.grammar sel.nodes).forget = true ∧
        supply.Fresh (sel.toTree.run supply).2 (cs.flatMap leaves) := by
  refine ⟨fun m _ _ f => Selection.tree_visit_select t s f, ?_, fun σ f st => ⟨?_, ?_⟩, ?_⟩
  · rw [Selection.ids, Selection.occurrences_select]
  · rw [Selection.run_visit_select]
    exact noted_visitAll_onlyWhere s.selects f t (st, [])
  · rw [Selection.run_visit_select]
    exact sameBut_run_onlyWhere s.selects f t st
  · intro sel hsel supply
    have honLeaves : sel.OnLeaves ∧ sel.tree.grammar = t.grammar := by
      rcases hsel with rfl | ⟨σ, f, st, rfl⟩
      · exact ⟨Selection.onLeaves_select t s, rfl⟩
      · refine ⟨Selection.onLeaves_visit_select t s f st, ?_⟩
        rw [Selection.run_visit_select]
        exact grammar_of_skeleton (skeleton_run_visitAll _ t st)
    obtain ⟨cs, hcopy, hflat, hterms, hfresh⟩ := honLeaves.1.run_toTree supply
    rw [honLeaves.2] at hcopy hterms
    refine ⟨cs, hcopy, hflat, ?_, hfresh⟩
    rw [hterms]
    exact identicalLeaves_self _

/-- The edit gives both selected leaves a name that the selector does not take, and counts them. -/
theorem visit_select_renaming :
    LawfulMonad (StateM Nat) ∧
    (Selection.tree <$> ((group {} [leaf {} ⟨4, { name := ['a'] }⟩, group {} [leaf {} ⟨7, { name := ['b'] }⟩,
        leaf {} ⟨5, { name := ['a'] }⟩]]).select (.name ['a'])).visit (m := StateM Nat)
      fun a n => ({ a with term := a.term.setName ['c'] }, n + 1)).run 0 =
        (group {} [leaf {} ⟨4, { name := ['c'] }⟩, group {} [leaf {} ⟨7, { name := ['b'] }⟩,
          leaf {} ⟨5, { name := ['c'] }⟩]], 2) ∧
    ((group {} [leaf {} ⟨4, { name := ['a'] }⟩, group {} [leaf {} ⟨7, { name := ['b'] }⟩,
      leaf {} ⟨5, { name := ['a'] }⟩]]).select (.name ['a'])).ids = [4, 5] ∧
    ∃ cs, (((group {} [leaf {} ⟨4, { name := ['a'] }⟩, group {} [leaf {} ⟨7, { name := ['b'] }⟩,
      leaf {} ⟨5, { name := ['a'] }⟩]]).select (.name ['a'])).toTree.run ⟨8⟩).1 = group {} cs ∧
        ∀ c ∈ cs, c.shape = .leaf := by
  obtain ⟨hvisit, hids, -, hcopy⟩ := visit_select (group {} [leaf {} ⟨4, { name := ['a'] }⟩,
    group {} [leaf {} ⟨7, { name := ['b'] }⟩, leaf {} ⟨5, { name := ['a'] }⟩]]) (.name ['a'])
  refine ⟨inferInstance, ?_, ?_, ?_⟩
  · rw [hvisit (StateM Nat)]
    rfl
  · rw [hids]
    simp [Selector.selects]
  · obtain ⟨cs, hcs, hflat, -⟩ := hcopy _ (.inl rfl) ⟨8⟩
    exact ⟨cs, hcs, hflat⟩

end Tree
end TermTree
