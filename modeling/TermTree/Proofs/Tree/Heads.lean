/-
The first leaves of the children. A visit of the heads and a removal of heads walk the tree in different ways: the
visit follows the chain of first children, the removal goes through the children of the root and down into each group
on its own. Both come to the same leaves. To say which, `markHeads` marks the leaves that a visit changes. A visit
with any edit, whatever its effects, is a visit of all leaves that edits the marked ones (`visitHeads_eq_visitAll`),
and a removal leaves out those marked leaves that the selector takes (`removeHeads_of_marked`).
-/
import TermTree.Proofs.Tree.Thinning
import TermTree.Tree.Traversal

namespace TermTree.Tree
variable {α : Type}

/-- No leaf is marked. -/
def unmarked (t : Tree α) : Tree (α × Bool) := t.map fun a => (a, false)

/-- The leaf at the end of the chain of first children is marked. -/
def markFirst (t : Tree α) : Tree (α × Bool) := Id.run (t.unmarked.visitFirst fun a => pure (a.1, true))

/-- The leaves that a visit of the heads comes to are marked. -/
def markHeads (t : Tree α) : Tree (α × Bool) := Id.run (t.unmarked.visitHeads fun a => pure (a.1, true))

@[simp] theorem unmarked_leaf (g : Grammar) (a : α) : (leaf g a).unmarked = leaf g (a, false) := map_leaf _ g a

@[simp] theorem unmarked_group (g : Grammar) (cs : List (Tree α)) :
    (group g cs).unmarked = group g (cs.map unmarked) := map_group _ g cs

@[simp] theorem markFirst_leaf (g : Grammar) (a : α) : (leaf g a).markFirst = leaf g (a, true) := by
  rw [markFirst, unmarked_leaf]
  rfl

@[simp] theorem markFirst_group_nil (g : Grammar) : (group g [] : Tree α).markFirst = group g [] := by
  rw [markFirst, unmarked_group]
  rfl

@[simp] theorem markFirst_group_cons (g : Grammar) (c : Tree α) (cs : List (Tree α)) :
    (group g (c :: cs)).markFirst = group g (c.markFirst :: cs.map unmarked) := by
  rw [markFirst, unmarked_group]
  rfl

@[simp] theorem markHeads_leaf (g : Grammar) (a : α) : (leaf g a).markHeads = leaf g (a, true) := by
  rw [markHeads, unmarked_leaf]
  rfl

theorem markHeads_group (g : Grammar) (cs : List (Tree α)) :
    (group g cs).markHeads = group g (cs.map markFirst) := by
  rw [markHeads, unmarked_group]
  show group g (Id.run ((cs.map unmarked).mapM _)) = _
  rw [List.idRun_mapM, List.map_map]
  rfl

theorem exists_markFirst_group (g : Grammar) (cs : List (Tree α)) : ∃ ds, (group g cs).markFirst = group g ds := by
  cases cs with
  | nil => exact ⟨[], markFirst_group_nil g⟩
  | cons c cs => exact ⟨_, markFirst_group_cons g c cs⟩

/-! ## What the marks leave alone -/

theorem map_map_fst {mark : Tree α → Tree (α × Bool)} {cs : List (Tree α)} (h : ∀ c ∈ cs, (mark c).map Prod.fst = c) :
    (cs.map mark).map (map Prod.fst) = cs := by
  rw [List.map_map]
  exact (List.map_congr_left h).trans (List.map_id' cs)

theorem map_fst_unmarked (t : Tree α) : t.unmarked.map Prod.fst = t := by
  induction t using induction with
  | leaf g a => simp
  | group g cs ih => rw [unmarked_group, map_group, map_map_fst ih]

theorem map_map_fst_unmarked (cs : List (Tree α)) : (cs.map unmarked).map (map Prod.fst) = cs :=
  map_map_fst fun c _ => map_fst_unmarked c

theorem map_fst_markFirst (t : Tree α) : t.markFirst.map Prod.fst = t := by
  induction t using induction with
  | leaf g a => simp
  | group g cs ih =>
    cases cs with
    | nil => simp
    | cons c cs =>
      rw [markFirst_group_cons, map_group, List.map_cons, ih c List.mem_cons_self, map_map_fst_unmarked]

theorem map_fst_markHeads (t : Tree α) : t.markHeads.map Prod.fst = t := by
  cases t with
  | leaf g a => simp
  | group g cs => rw [markHeads_group, map_group, map_map_fst fun c _ => map_fst_markFirst c]

theorem filter_leaves_unmarked (cs : List (Tree α)) : ((cs.map unmarked).flatMap leaves).filter (·.2) = [] := by
  rw [List.filter_eq_nil_iff]
  intro a ha
  obtain ⟨u, hu, hau⟩ := List.mem_flatMap.1 ha
  obtain ⟨c, -, rfl⟩ := List.mem_map.1 hu
  rw [unmarked, leaves_map] at hau
  obtain ⟨b, -, rfl⟩ := List.mem_map.1 hau
  exact Bool.false_ne_true

theorem filter_leaves_markFirst (t : Tree α) : (t.markFirst.leaves.filter (·.2)).map Prod.fst = t.first?.toList := by
  induction t using induction with
  | leaf g a => simp [first?]
  | group g cs ih =>
    cases cs with
    | nil => simp [first?]
    | cons c cs =>
      rw [markFirst_group_cons, leaves_group, List.flatMap_cons, List.filter_append, filter_leaves_unmarked,
        List.append_nil, ih c List.mem_cons_self, first?]

/-- The marked leaves are the first ones of the children, in their order. -/
theorem filter_leaves_markHeads (g : Grammar) (cs : List (Tree α)) :
    ((group g cs).markHeads.leaves.filter (·.2)).map Prod.fst = cs.filterMap first? := by
  rw [markHeads_group, leaves_group]
  induction cs with
  | nil => rfl
  | cons c cs ih =>
    rw [List.map_cons, List.flatMap_cons, List.filter_append, List.map_append, ih, filter_leaves_markFirst,
      List.filterMap_cons]
    cases c.first? <;> rfl

/-! ## Visits -/

section
variable {m : Type → Type} [Monad m]

/-- An edit of the marked leaves. -/
def onMarked (f : α → m α) (a : α × Bool) : m α := if a.2 then f a.1 else pure a.1

variable [LawfulMonad m] (f : α → m α)

theorem mapM_unmarked {cs : List (Tree α)} (h : ∀ c ∈ cs, c.unmarked.visitAll (onMarked f) = pure c) :
    (cs.map unmarked).mapM (visitAll (onMarked f)) = pure cs := by
  induction cs with
  | nil => rfl
  | cons c cs ih =>
    rw [List.map_cons, List.mapM_cons, h c List.mem_cons_self, ih fun d hd => h d (List.mem_cons_of_mem c hd),
      pure_bind, pure_bind]

theorem visitAll_unmarked (t : Tree α) : t.unmarked.visitAll (onMarked f) = pure t := by
  induction t using induction with
  | leaf g a =>
    rw [unmarked_leaf, visitAll, onMarked]
    exact map_pure _ _
  | group g cs ih => rw [unmarked_group, visitAll_group, mapM_unmarked f ih, map_pure]

theorem visitFirst_eq_visitAll (t : Tree α) : t.visitFirst f = t.markFirst.visitAll (onMarked f) := by
  induction t using induction with
  | leaf g a =>
    rw [markFirst_leaf, visitAll, visitFirst]
    rfl
  | group g cs ih =>
    cases cs with
    | nil =>
      rw [markFirst_group_nil, visitFirst, visitAll_group]
      exact (map_pure _ _).symm
    | cons c cs =>
      have hrest := mapM_unmarked f fun d (_ : d ∈ cs) => visitAll_unmarked f d
      rw [markFirst_group_cons, visitFirst, visitAll_group, List.mapM_cons, hrest, ih c List.mem_cons_self]
      simp

/-- **A visit of the heads runs its edit on the marked leaves and on no others**, from left to right. -/
theorem visitHeads_eq_visitAll (t : Tree α) : t.visitHeads f = t.markHeads.visitAll (onMarked f) := by
  cases t with
  | leaf g a =>
    rw [visitHeads, markHeads_leaf, visitAll]
    rfl
  | group g cs =>
    have hfirst : visitFirst f = visitAll (onMarked f) ∘ markFirst := funext fun c => visitFirst_eq_visitAll f c
    rw [visitHeads, markHeads_group, visitAll_group, List.mapM_map, hfirst]

end

/-! ## Removals -/

section
variable (test : α → Bool)

/-- The test of a marked leaf. -/
def isHeadWhere (a : α × Bool) : Bool := a.2 && test a.1

theorem thins_unmarked (g : Grammar) (cs : List (Tree α)) :
    Thins (isHeadWhere test) (group g (cs.map unmarked)) (group g (cs.map unmarked)) := by
  refine .refl _ fun a ha => ?_
  rw [← unmarked_group, unmarked, leaves_map] at ha
  obtain ⟨b, -, rfl⟩ := List.mem_map.1 ha
  rfl

/-- A group without its first leaf, if that passes the test, is the marked group, thinned. -/
theorem exists_thins_markFirst (t : Tree α) (ht : t.shape = .group) :
    ∃ ds, Thins (isHeadWhere test) t.markFirst (group t.grammar ds) ∧
      group t.grammar (ds.map (map Prod.fst)) = (dropFirst? test t).getD t := by
  fun_induction dropFirst? test t with
  | case1 => contradiction
  | case2 g =>
    rw [markFirst_group_nil]
    exact ⟨[], .empty g, rfl⟩
  | case3 g h a cs ha =>
    rw [markFirst_group_cons, markFirst_leaf]
    refine ⟨cs.map unmarked, .out (by simp [isHeadWhere, ha]) (thins_unmarked test g cs), ?_⟩
    rw [map_map_fst_unmarked]
    rfl
  | case4 g h a cs ha =>
    rw [markFirst_group_cons, markFirst_leaf]
    have hstays : isHeadWhere test (a, true) = false := by simpa [isHeadWhere] using ha
    refine ⟨leaf h (a, true) :: cs.map unmarked, .stays hstays (thins_unmarked test g cs), ?_⟩
    rw [List.map_cons, map_leaf, map_map_fst_unmarked]
    rfl
  | case5 g h es cs ih =>
    obtain ⟨fs, hthins, hfs⟩ := ih rfl
    obtain ⟨es', hes⟩ := exists_markFirst_group h es
    rw [hes] at hthins
    rw [markFirst_group_cons, hes]
    refine ⟨group h fs :: cs.map unmarked, .inside hthins (thins_unmarked test g cs), ?_⟩
    rw [List.map_cons, map_group, map_map_fst_unmarked]
    simp only [grammar] at hfs ⊢
    rw [hfs]
    cases dropFirst? test (group h es) <;> rfl

theorem snd_dropHead_group (g : Grammar) (cs : List (Tree α)) :
    (dropHead test (group g cs)).2 = [(dropFirst? test (group g cs)).getD (group g cs)] := by
  rw [dropHead]
  cases dropFirst? test (group g cs) <;> rfl

/-- Dropping heads is thinning where the marks are. -/
theorem exists_thins_markHeads (g : Grammar) (cs : List (Tree α)) :
    ∃ ds, Thins (isHeadWhere test) (group g cs).markHeads (group g ds) ∧
      (group g (ds.map (map Prod.fst))) = ((group g cs).dropHeads test).2 := by
  rw [markHeads_group, dropHeads]
  induction cs with
  | nil => exact ⟨[], .empty g, rfl⟩
  | cons c cs ih =>
    obtain ⟨ds, hthins, hds⟩ := ih
    have hds : ds.map (map Prod.fst) = (cs.map (dropHead test)).flatMap (·.2) := (group.inj hds).2
    rw [List.map_cons, List.map_cons, List.flatMap_cons, ← hds]
    cases c with
    | leaf h a =>
      rw [markFirst_leaf, dropHead]
      by_cases ha : test a = true
      · rw [if_pos ha]
        exact ⟨ds, .out (by simp [isHeadWhere, ha]) hthins, rfl⟩
      · rw [if_neg ha]
        refine ⟨leaf h (a, true) :: ds, .stays (by simpa [isHeadWhere] using ha) hthins, ?_⟩
        rw [List.map_cons, map_leaf]
        rfl
    | group h es =>
      obtain ⟨fs, hinside, hfs⟩ := exists_thins_markFirst test (group h es) rfl
      obtain ⟨es', hes⟩ := exists_markFirst_group h es
      rw [hes] at hinside ⊢
      refine ⟨group h fs :: ds, .inside hinside hthins, ?_⟩
      rw [List.map_cons, map_group, snd_dropHead_group, ← hfs]
      rfl

theorem length_of_dropFirst? {t u : Tree α} (hu : dropFirst? test t = some u) :
    1 + u.leaves.length = t.leaves.length := by
  fun_induction dropFirst? test t generalizing u with
  | case1 => contradiction
  | case2 => contradiction
  | case3 g h a cs ha =>
    cases hu
    simp [Nat.add_comm]
  | case4 => contradiction
  | case5 g h es cs ih =>
    obtain ⟨c, hc, rfl⟩ := Option.map_eq_some_iff.1 hu
    have hlength := ih hc
    simp only [leaves_group, List.flatMap_cons, List.length_append] at hlength ⊢
    omega

theorem dropHead_add_length (c : Tree α) :
    (dropHead test c).1 + ((dropHead test c).2.flatMap leaves).length = c.leaves.length := by
  unfold dropHead
  split
  · next g a =>
    split
    · simp
    · simp
  · next g cs =>
    split
    · next u hu =>
      have hlength := length_of_dropFirst? test hu
      simpa using hlength
    · simp

theorem dropHeads_add_length (t : Tree α) :
    (t.dropHeads test).1 + (t.dropHeads test).2.leaves.length = t.leaves.length := by
  cases t with
  | leaf g a => exact Nat.zero_add _
  | group g cs =>
    rw [dropHeads, leaves_group, leaves_group]
    induction cs with
    | nil => rfl
    | cons c cs ih =>
      have hc := dropHead_add_length test c
      simp only [List.map_cons, total_cons, List.flatMap_cons, List.flatMap_append, List.length_append] at ih ⊢
      omega

end

/-- **Removal of heads takes the leaves that a visit of the heads comes to.** The marked leaves of a group are those
on which a visit runs its edit, whatever the edit: the first leaves of the children that have one. A removal with a
selector leaves out the marked leaves that the selector takes; every other leaf and every group is where it was, and
what is counted is how many leaves have gone. A tree that is a single leaf stays. -/
theorem removeHeads_of_marked (g : Grammar) (cs : List (Tree Occurrence)) (s : Selector) :
    (∀ (m : Type → Type) [Monad m] [LawfulMonad m] (f : Occurrence → m Occurrence),
      (group g cs).visitHeads f = (group g cs).markHeads.visitAll (onMarked f)) ∧
    (group g cs).markHeads.map Prod.fst = group g cs ∧
    ((group g cs).markHeads.leaves.filter (·.2)).map Prod.fst = cs.filterMap first? ∧
    (∃ u, Thins (fun a => a.2 && s.removes a.1) (group g cs).markHeads u ∧
      u.map Prod.fst = ((group g cs).removeHeads [s]).2) ∧
    ((group g cs).removeHeads [s]).1 + ((group g cs).removeHeads [s]).2.leaves.length = (group g cs).leaves.length ∧
    ∀ h a, (leaf h a).removeHeads [s] = (0, leaf h a) := by
  have hcount : ((group g cs).removeHeads [s]).1 = ((group g cs).dropHeads s.removes).1 := Nat.add_zero _
  refine ⟨fun m _ _ f => visitHeads_eq_visitAll f _, map_fst_markHeads _, filter_leaves_markHeads g cs, ?_, ?_, ?_⟩
  · obtain ⟨ds, hthins, hds⟩ := exists_thins_markHeads s.removes g cs
    refine ⟨group g ds, hthins, ?_⟩
    rw [map_group, hds]
    rfl
  · rw [hcount]
    exact dropHeads_add_length s.removes _
  · intro h a
    rfl

/-- Two hits side by side, an empty group, and a leaf two groups deep; the leaves behind the heads stay. -/
theorem removeHeads_adjacent :
    LawfulMonad (StateM (List Id)) ∧
    (∀ f : Occurrence → StateM (List Id) Occurrence,
      (group {} [leaf {} ⟨0, { name := ['a'] }⟩, leaf {} ⟨1, { name := ['a'] }⟩, group {} [],
          group {} [group {} [leaf {} ⟨2, { name := ['a'] }⟩], leaf {} ⟨3, { name := ['a'] }⟩]]).visitHeads f =
        (group {} [leaf {} (⟨0, { name := ['a'] }⟩, true), leaf {} (⟨1, { name := ['a'] }⟩, true), group {} [],
          group {} [group {} [leaf {} (⟨2, { name := ['a'] }⟩, true)],
            leaf {} (⟨3, { name := ['a'] }⟩, false)]]).visitAll (onMarked f)) ∧
    (group {} [leaf {} ⟨0, { name := ['a'] }⟩, leaf {} ⟨1, { name := ['a'] }⟩, group {} [],
        group {} [group {} [leaf {} ⟨2, { name := ['a'] }⟩],
          leaf {} ⟨3, { name := ['a'] }⟩]]).removeHeads [.name ['a']] =
      (3, group {} [group {} [], group {} [group {} [], leaf {} ⟨3, { name := ['a'] }⟩]]) := by
  have hmarked := removeHeads_of_marked {} [leaf {} ⟨0, { name := ['a'] }⟩, leaf {} ⟨1, { name := ['a'] }⟩, group {} [],
    group {} [group {} [leaf {} ⟨2, { name := ['a'] }⟩], leaf {} ⟨3, { name := ['a'] }⟩]] (.name ['a'])
  refine ⟨inferInstance, fun f => ?_, ?_⟩
  · rw [hmarked.1 (StateM (List Id)) f, markHeads_group]
    simp
  · simp [removeHeads, removeEach, dropHeads, dropHead, dropFirst?, Selector.removes]

end TermTree.Tree
