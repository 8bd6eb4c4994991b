/-
What a change of one node does to the whole tree: its leaves are the old ones with those of the node replaced
(`leaves_setAt`), and where the node keeps something about itself so does the tree (`map_setAt`). Edits of
occurrences keep the tree of identities, on whichever leaves they are run (`map_id_visit`, `map_id_visit_selection`).
-/
import TermTree.Proofs.Tree.LeafPath
import TermTree.Tree.Selection
import TermTree.Workspace.Step

namespace TermTree.Tree
variable {α β σ : Type}

/-! ## One node -/

theorem setAt_cons {g : Grammar} {cs : List (Tree α)} {i : Nat} {c : Tree α} (h : cs[i]? = some c) (p : Path)
    (new : Tree α) : (group g cs).setAt (i :: p) new = group g (cs.set i (c.setAt p new)) := by
  simp only [setAt, modifyAt, h]
  rfl

theorem setAt_self {t n : Tree α} {p : Path} (h : t.get? p = some n) : t.setAt p n = t := by
  induction p generalizing t with
  | nil =>
    cases h
    rfl
  | cons i p ih =>
    obtain ⟨g, cs, c, rfl, hc, hn⟩ := get?_cons h
    obtain ⟨hi, rfl⟩ := List.getElem?_eq_some_iff.1 hc
    rw [setAt_cons hc, ih hn, List.set_getElem_self]

theorem get?_setAt {t n : Tree α} {p : Path} (h : t.get? p = some n) (new : Tree α) :
    (t.setAt p new).get? p = some new := by
  induction p generalizing t with
  | nil => rfl
  | cons i p ih =>
    obtain ⟨g, cs, c, rfl, hc, hn⟩ := get?_cons h
    obtain ⟨hi, -⟩ := List.getElem?_eq_some_iff.1 hc
    rw [setAt_cons hc, get?_group_cons, List.getElem?_set_self hi]
    exact ih hn

theorem setAt_setAt {t n : Tree α} {p : Path} (h : t.get? p = some n) (new new' : Tree α) :
    (t.setAt p new).setAt p new' = t.setAt p new' := by
  induction p generalizing t with
  | nil => rfl
  | cons i p ih =>
    obtain ⟨g, cs, c, rfl, hc, hn⟩ := get?_cons h
    obtain ⟨hi, -⟩ := List.getElem?_eq_some_iff.1 hc
    rw [setAt_cons hc, setAt_cons (List.getElem?_set_self hi), setAt_cons hc, ih hn, List.set_set]

theorem exists_set_eq_append {cs : List α} {i : Nat} {c : α} (h : cs[i]? = some c) :
    ∃ before after, cs = before ++ c :: after ∧ ∀ new, cs.set i new = before ++ new :: after := by
  obtain ⟨hi, rfl⟩ := List.getElem?_eq_some_iff.1 h
  refine ⟨cs.take i, cs.drop (i + 1), ?_, fun new => ?_⟩
  · rw [← List.drop_eq_getElem_cons hi, List.take_append_drop]
  · rw [List.set_eq_take_append_cons_drop, if_pos hi]

/-- With another tree in the place of a node, its leaves stand where those of the node stood. -/
theorem leaves_setAt {t n : Tree α} {p : Path} (h : t.get? p = some n) :
    ∃ before after, t.leaves = before ++ n.leaves ++ after ∧
      ∀ new : Tree α, (t.setAt p new).leaves = before ++ new.leaves ++ after := by
  induction p generalizing t with
  | nil =>
    cases h
    exact ⟨[], [], by simp, fun new => by simp [setAt, modifyAt]⟩
  | cons i p ih =>
    obtain ⟨g, cs, c, rfl, hc, hn⟩ := get?_cons h
    obtain ⟨before, after, hleaves, hnew⟩ := ih hn
    obtain ⟨l, r, hcs, hset⟩ := exists_set_eq_append hc
    refine ⟨l.flatMap leaves ++ before, after ++ r.flatMap leaves, ?_, fun new => ?_⟩
    · rw [leaves_group, hcs, List.flatMap_append, List.flatMap_cons, hleaves]
      simp only [List.append_assoc]
    · rw [setAt_cons hc, leaves_group, hset, List.flatMap_append, List.flatMap_cons, hnew]
      simp only [List.append_assoc]

theorem map_group_set {f : α → β} {g : Grammar} {cs : List (Tree α)} {i : Nat} {c new : Tree α} (hc : cs[i]? = some c)
    (hf : new.map f = c.map f) : (group g (cs.set i new)).map f = (group g cs).map f := by
  obtain ⟨l, r, hcs, hset⟩ := exists_set_eq_append hc
  rw [hset, map_group, map_group, hcs, List.map_append, List.map_append, List.map_cons, List.map_cons, hf]

/-- What the tree in the place of a node has in common with the node, the whole tree has in common with the old
one. -/
theorem map_setAt {f : α → β} {t n new : Tree α} {p : Path} (h : t.get? p = some n) (hf : new.map f = n.map f) :
    (t.setAt p new).map f = t.map f := by
  induction p generalizing t with
  | nil =>
    cases h
    exact hf
  | cons i p ih =>
    obtain ⟨g, cs, c, rfl, hc, hn⟩ := get?_cons h
    rw [setAt_cons hc]
    exact map_group_set hc (ih hn)

/-! ## Edits of occurrences -/

/-- What is the same about each member of a list before and after is the same about the list. -/
theorem map_run_mapM {γ : Type} {proj : α → γ} {proj' : β → γ} {k : Tree α → StateM σ (Tree β)} {cs : List (Tree α)}
    (hk : ∀ c ∈ cs, ∀ s, ((k c).run s).1.map proj' = c.map proj) (s : σ) :
    ((cs.mapM k).run s).1.map (map proj') = cs.map (map proj) := by
  induction cs generalizing s with
  | nil => rfl
  | cons c cs ih =>
    rw [List.mapM_cons]
    exact List.cons_eq_cons.2 ⟨hk c (by simp) s, ih (fun d hd => hk d (by simp [hd])) _⟩

theorem map_run_visitAll {γ : Type} {proj : α → γ} {proj' : β → γ} {k : α → StateM σ β}
    (hk : ∀ a s, proj' ((k a).run s).1 = proj a) (t : Tree α) (s : σ) :
    ((t.visitAll k).run s).1.map proj' = t.map proj := by
  induction t using induction generalizing s with
  | leaf g a =>
    show (leaf g _).map proj' = _
    rw [map_leaf, map_leaf]
    exact congrArg (leaf g) (hk a s)
  | group g cs ih =>
    rw [visitAll_group, map_group, ← map_run_mapM ih s, ← map_group]
    rfl

theorem map_id_modifyAt {k : Tree Occurrence → StateM σ (Tree Occurrence)}
    (hk : ∀ c s, ((k c).run s).1.map (·.id) = c.map (·.id)) (p : Path) (t : Tree Occurrence) (s : σ) :
    ((t.modifyAt k p).run s).1.map (·.id) = t.map (·.id) := by
  induction p generalizing t s with
  | nil => exact hk t s
  | cons i p ih =>
    cases t with
    | leaf g a => rfl
    | group g cs =>
      rw [modifyAt]
      split
      · rfl
      · next c hc => exact map_group_set hc (ih c s)

section
variable (f : Occurrence → StateM σ Term)

theorem map_id_visitLeaf (t : Tree Occurrence) (s : σ) :
    ((t.visitLeaf (Occurrence.edit f)).run s).1.map (·.id) = t.map (·.id) := by
  cases t with
  | leaf g a =>
    show (leaf g _).map _ = _
    rw [map_leaf, map_leaf]
  | group g cs => rfl

theorem map_id_visitAll (t : Tree Occurrence) (s : σ) :
    ((t.visitAll (Occurrence.edit f)).run s).1.map (·.id) = t.map (·.id) :=
  map_run_visitAll (fun _ _ => rfl) t s

theorem map_id_visitFirst (t : Tree Occurrence) (s : σ) :
    ((t.visitFirst (Occurrence.edit f)).run s).1.map (·.id) = t.map (·.id) := by
  induction t using induction generalizing s with
  | leaf g a => exact map_id_visitLeaf f (leaf g a) s
  | group g cs ih =>
    cases cs with
    | nil => rfl
    | cons c cs =>
      rw [visitFirst, map_group, List.map_cons, ← ih c (by simp) s, ← List.map_cons, ← map_group]
      rfl

theorem map_id_visit (which : Visiting) (t : Tree Occurrence) (s : σ) :
    ((which.run _ (Occurrence.edit f) t).run s).1.map (·.id) = t.map (·.id) := by
  cases which with
  | all => exact map_id_visitAll f t s
  | first => exact map_id_visitFirst f t s
  | heads =>
    cases t with
    | leaf g a => exact map_id_visitLeaf f (leaf g a) s
    | group g cs =>
      rw [map_group, ← map_run_mapM (fun c _ => map_id_visitFirst f c) s, ← map_group]
      rfl
  | rest =>
    cases t with
    | leaf g a => rfl
    | group g cs =>
      cases cs with
      | nil => rfl
      | cons c cs =>
        rw [map_group, List.map_cons, ← map_run_mapM (fun c _ => map_id_visitFirst f c) s, ← List.map_cons, ← map_group]
        rfl

theorem map_id_visit_selection (selection : Selection) (s : σ) :
    ((selection.visit (Occurrence.edit f)).run s).1.tree.map (·.id) = selection.tree.map (·.id) := by
  have hfold : ∀ (ps : List Path) (t : Tree Occurrence) (s : σ),
      ((ps.foldlM (fun t p => visitAt (Occurrence.edit f) p t) t).run s).1.map (·.id) = t.map (·.id) := by
    intro ps
    induction ps with
    | nil => exact fun _ _ => rfl
    | cons p ps ih =>
      intro t s
      rw [List.foldlM_cons]
      exact (ih _ _).trans (map_id_modifyAt (map_id_visitLeaf f) p t s)
  exact hfold selection.paths selection.tree s

end

end TermTree.Tree
