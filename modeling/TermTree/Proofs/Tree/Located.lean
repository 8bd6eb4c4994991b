/-
Leaves by their identity. What is found is the first leaf with the identity, at the least path to such a leaf
(`findPath?_eq_some`); its owner is the group that holds it (`findOwner?_concat`). Where each identity stands at one
leaf, a path and an identity say the same (`findPath?_of_get?`), so an edit of the leaf with an identity is a visit that
edits this leaf alone (`visitId_of_nodup`), and whatever was found before is found at the same place afterwards.
-/
import TermTree.Proofs.Tree.Selected

namespace TermTree

theorem Path.parent?_concat (p : Path) (i : Nat) : Path.parent? (p ++ [i]) = some p := by
  cases p with
  | nil => rfl
  | cons j p =>
    show some ((j :: p) ++ [i]).dropLast = _
    rw [List.dropLast_concat]

namespace Tree

/-! ## What is found -/

section
variable {t : Tree Occurrence} {id : Id} {p : Path}

theorem findPath?_eq_none_iff : t.findPath? id = none ↔ ∀ a ∈ t.leaves, a.id ≠ id := by
  rw [findPath?, List.head?_eq_none_iff, ← List.length_eq_zero_iff, length_pathsWhere, List.length_eq_zero_iff,
    List.filter_eq_nil_iff]
  simp only [beq_iff_eq]

/-- The path found leads to a leaf with the identity, and the paths to the other ones are greater. -/
theorem findPath?_eq_some (h : t.findPath? id = some p) :
    ∃ g a, t.get? p = some (leaf g a) ∧ a.id = id ∧
      ∀ q k b, t.get? q = some (leaf k b) → b.id = id → q = p ∨ List.Lex (· < ·) p q := by
  obtain ⟨ps, hps⟩ := List.head?_eq_some_iff.1 h
  obtain ⟨g, a, hget, ha⟩ := mem_pathsWhere.1 (hps ▸ List.mem_cons_self : p ∈ t.pathsWhere (·.id == id))
  have hlater := pairwise_pathsWhere (·.id == id) t
  rw [hps, List.pairwise_cons] at hlater
  refine ⟨g, a, hget, beq_iff_eq.1 ha, fun q k b hq hb => ?_⟩
  have hmem : q ∈ t.pathsWhere (·.id == id) := mem_pathsWhere.2 ⟨k, b, hq, beq_iff_eq.2 hb⟩
  rw [hps] at hmem
  rcases List.mem_cons.1 hmem with rfl | hmem
  · exact .inl rfl
  · exact .inr (hlater.1 q hmem)

/-- The leaf found is the first one with the identity in the order of the leaves. -/
theorem find?_leafNodes (t : Tree Occurrence) (id : Id) : t.leafNodes.find? (isLeafOf id) = t.findLeaf? id := by
  have hpaths := congrArg List.head? (map_get?_pathsWhere (·.id == id) t)
  rw [List.head?_map, List.head?_map, List.head?_filter] at hpaths
  show t.leafNodes.find? (isLeafWhere (·.id == id)) = (t.findPath? id).bind t.get?
  rw [findPath?]
  cases hp : (t.pathsWhere (·.id == id)).head? with
  | none =>
    rw [hp] at hpaths
    exact Option.map_eq_none_iff.1 hpaths.symm
  | some p =>
    rw [hp] at hpaths
    obtain ⟨n, hn, hget⟩ := Option.map_eq_some_iff.1 hpaths.symm
    rw [hn]
    exact hget

theorem findOwner?_concat {i : Nat} (h : t.findPath? id = some (p ++ [i])) : t.findOwner? id = t.get? p := by
  show (t.findPath? id).bind _ = _
  rw [h, Option.bind_some, Path.parent?_concat]
  rfl

theorem findOwner?_root (h : t.findPath? id = some []) : t.findOwner? id = none := by
  show (t.findPath? id).bind _ = _
  rw [h]
  rfl

theorem findOwner?_of_none (h : t.findPath? id = none) : t.findOwner? id = none := by
  show (t.findPath? id).bind _ = _
  rw [h]
  rfl

theorem findOwner?_holds {i : Nat} (h : t.findPath? id = some (p ++ [i])) :
    ∃ g cs k a, t.findOwner? id = some (group g cs) ∧ t.get? p = some (group g cs) ∧ cs[i]? = some (leaf k a) ∧
      a.id = id := by
  obtain ⟨k, a, hget, ha, -⟩ := findPath?_eq_some h
  obtain ⟨g, cs, howner, hchild⟩ := get?_concat hget
  exact ⟨g, cs, k, a, (findOwner?_concat h).trans howner, howner, hchild, ha⟩

theorem isSome_findOwner?_iff : (t.findOwner? id).isSome ↔ ∃ p, t.findPath? id = some p ∧ p ≠ [] := by
  cases hp : t.findPath? id with
  | none => simp [findOwner?_of_none hp]
  | some p =>
    rcases List.eq_nil_or_concat' p with rfl | ⟨q, i, rfl⟩
    · simp [findOwner?_root hp]
    · obtain ⟨g, cs, k, a, howner, -⟩ := findOwner?_holds hp
      simp [howner]

theorem pathsWhere_map {α β : Type} (f : α → β) (test : β → Bool) (t : Tree α) :
    (t.map f).pathsWhere test = t.pathsWhere fun a => test (f a) := by
  induction t using induction with
  | leaf g a => rw [map_leaf, pathsWhere, pathsWhere]
  | group g cs ih =>
    rw [map_group, pathsWhere, pathsWhere]
    generalize 0 = i
    induction cs generalizing i with
    | nil => rfl
    | cons c cs ihcs =>
      have hcs := ihcs (fun d hd => ih d (List.mem_cons_of_mem c hd)) (i + 1)
      rw [List.map_cons, pathsFrom, pathsFrom, ih c List.mem_cons_self, hcs]

/-- What is found depends on the identities alone. -/
theorem findPath?_of_map_id {u : Tree Occurrence} (h : u.map (·.id) = t.map (·.id)) (id : Id) :
    u.findPath? id = t.findPath? id := by
  have hids (t : Tree Occurrence) : t.findPath? id = ((t.map (·.id)).pathsWhere (· == id)).head? := by
    rw [pathsWhere_map, findPath?]
  rw [hids, hids, h]

end

/-! ## One leaf for each identity -/

theorem mem_leaves_of_get? {t : Tree Occurrence} {p : Path} {g : Grammar} {a : Occurrence}
    (h : t.get? p = some (leaf g a)) : a ∈ t.leaves := by
  obtain ⟨before, after, hleaves, -⟩ := leaves_setAt h
  simp [hleaves]

theorem exists_path_of_mem_leaves {t : Tree Occurrence} {a : Occurrence} (ha : a ∈ t.leaves) :
    ∃ p, t.findPath? a.id = some p := by
  refine Option.ne_none_iff_exists'.1 fun hnone => ?_
  exact findPath?_eq_none_iff.1 hnone a ha rfl

theorem filter_id_of_nodup {as : List Occurrence} (h : (as.map (·.id)).Nodup) {a : Occurrence} (ha : a ∈ as) :
    as.filter (·.id == a.id) = [a] := by
  obtain ⟨l, r, rfl⟩ := List.append_of_mem ha
  rw [List.map_append, List.map_cons] at h
  obtain ⟨-, hr, hl⟩ := List.nodup_append.1 h
  have hbefore : l.filter (·.id == a.id) = [] := by
    rw [List.filter_eq_nil_iff]
    intro b hb heq
    exact hl b.id (List.mem_map_of_mem hb) a.id List.mem_cons_self (beq_iff_eq.1 heq)
  have hbehind : r.filter (·.id == a.id) = [] := by
    rw [List.filter_eq_nil_iff]
    intro b hb heq
    exact (List.nodup_cons.1 hr).1 (beq_iff_eq.1 heq ▸ List.mem_map_of_mem hb)
  rw [List.filter_append, hbefore, List.filter_cons, if_pos (beq_self_eq_true a.id), hbehind, List.nil_append]

section
variable {t : Tree Occurrence} (hids : (t.leaves.map (·.id)).Nodup) {p : Path} {g : Grammar} {a : Occurrence}
include hids

theorem pathsWhere_id (h : t.get? p = some (leaf g a)) : t.pathsWhere (·.id == a.id) = [p] := by
  have hlength := length_pathsWhere (·.id == a.id) t
  rw [filter_id_of_nodup hids (mem_leaves_of_get? h)] at hlength
  obtain ⟨q, hq⟩ := List.length_eq_one_iff.1 hlength
  have hmem : p ∈ t.pathsWhere (·.id == a.id) := mem_pathsWhere.2 ⟨g, a, h, beq_self_eq_true a.id⟩
  rw [hq] at hmem ⊢
  rw [List.mem_singleton.1 hmem]

theorem findPath?_of_get? (h : t.get? p = some (leaf g a)) : t.findPath? a.id = some p := by
  rw [findPath?, pathsWhere_id hids h]
  rfl

/-- An edit of the leaf with an identity is a visit of all leaves that edits this one. -/
theorem visitId_of_nodup {m : Type → Type} [Monad m] [LawfulMonad m] (f : Occurrence → m Occurrence)
    (ha : a ∈ t.leaves) : t.visitId f a.id = some (t.visitAll (onlyWhere (·.id == a.id) f)) := by
  obtain ⟨p, hp⟩ := exists_path_of_mem_leaves ha
  obtain ⟨g, b, hget, hb, -⟩ := findPath?_eq_some hp
  have hpaths := pathsWhere_id hids hget
  rw [hb] at hpaths
  rw [visitId, hp, ← foldlM_visitAt_pathsWhere, hpaths]
  simp

end

/-- **A leaf is located by its identity**: nothing is found exactly if no leaf has the identity; what is found is the
least path to such a leaf, to the one that a cursor comes to first. With identities that stand at one leaf each, every
leaf is found where it is. The owner of a leaf below the root is the group that has it as its child at the last index
of the path. -/
theorem findPath?_locates (t : Tree Occurrence) (id : Id) :
    (t.findPath? id = none ↔ ∀ a ∈ t.leaves, a.id ≠ id) ∧
    (∀ p, t.findPath? id = some p → ∃ g a, t.get? p = some (leaf g a) ∧ a.id = id ∧
      (∀ q k b, t.get? q = some (leaf k b) → b.id = id → q = p ∨ List.Lex (· < ·) p q) ∧
      (LeafCursor.ofTree t).toList.find? (isLeafOf id) = some (leaf g a)) ∧
    ((t.leaves.map (·.id)).Nodup → ∀ q g a, t.get? q = some (leaf g a) → t.findPath? a.id = some q) ∧
    ((t.findOwner? id).isSome ↔ ∃ p, t.findPath? id = some p ∧ p ≠ []) ∧
    ∀ p i, t.findPath? id = some (p ++ [i]) →
      ∃ g cs k a, t.findOwner? id = some (group g cs) ∧ t.get? p = some (group g cs) ∧ cs[i]? = some (leaf k a) ∧
        a.id = id := by
  refine ⟨findPath?_eq_none_iff, fun p hp => ?_, fun hids q g a hq => findPath?_of_get? hids hq,
    isSome_findOwner?_iff, fun p i hp => findOwner?_holds hp⟩
  obtain ⟨g, a, hget, ha, hleast⟩ := findPath?_eq_some hp
  refine ⟨g, a, hget, ha, hleast, ?_⟩
  rw [LeafCursor.toList_ofTree, find?_leafNodes, findLeaf?, hp]
  exact hget

/-- Two leaves have the identity; the first one stands deeper, behind an empty group. With the other one alone, this is
found at its path. -/
theorem findPath?_locates_nested :
    (group {} [group {} [], group {} [leaf {} ⟨3, { name := ['a'] }⟩, leaf {} ⟨7, { name := ['b'] }⟩],
      leaf {} ⟨7, { name := ['c'] }⟩]).findPath? 7 = some [1, 1] ∧
    (∃ g cs k a, (group {} [group {} [], group {} [leaf {} ⟨3, { name := ['a'] }⟩, leaf {} ⟨7, { name := ['b'] }⟩],
      leaf {} ⟨7, { name := ['c'] }⟩]).findOwner? 7 = some (group g cs) ∧ cs[1]? = some (leaf k a) ∧ a.id = 7) ∧
    (List.map Occurrence.id (group {} [group {} [], leaf {} ⟨7, { name := ['c'] }⟩]).leaves).Nodup ∧
    (group {} [group {} [], leaf {} ⟨7, { name := ['c'] }⟩]).findPath? 7 = some [1] := by
  have hpath : (group {} [group {} [], group {} [leaf {} ⟨3, { name := ['a'] }⟩, leaf {} ⟨7, { name := ['b'] }⟩],
      leaf {} ⟨7, { name := ['c'] }⟩]).findPath? 7 = some ([1] ++ [1]) := by decide
  have hids : (List.map Occurrence.id (group {} [group {} [], leaf {} ⟨7, { name := ['c'] }⟩]).leaves).Nodup := by
    simp
  obtain ⟨-, -, -, -, howner⟩ := findPath?_locates (group {} [group {} [], group {} [leaf {} ⟨3, { name := ['a'] }⟩,
    leaf {} ⟨7, { name := ['b'] }⟩], leaf {} ⟨7, { name := ['c'] }⟩]) 7
  obtain ⟨-, -, hplace, -⟩ := findPath?_locates (group {} [group {} [], leaf {} ⟨7, { name := ['c'] }⟩]) 7
  obtain ⟨g, cs, k, a, hgroup, -, hchild, ha⟩ := howner [1] 1 hpath
  exact ⟨hpath, ⟨g, cs, k, a, hgroup, hchild, ha⟩, hids, hplace hids [1] {} _ rfl⟩

/-- **An edit by identity touches one leaf.** If no leaf has the identity, there is none to edit. Otherwise, with
identities that stand at one leaf each, the edit of the leaf is a visit of all leaves that edits this one alone,
whatever its effects; it is handed this leaf, once, and all else is as it was. With an edit that keeps identities, every
identity is found where it was. -/
theorem visitId_touches_one (t : Tree Occurrence) :
    (∀ id, (∀ a ∈ t.leaves, a.id ≠ id) → ∀ (m : Type → Type) [Monad m] (f : Occurrence → m Occurrence),
      t.visitId f id = none) ∧
    ((t.leaves.map (·.id)).Nodup → ∀ a ∈ t.leaves,
      (∀ (m : Type → Type) [Monad m] [LawfulMonad m] (f : Occurrence → m Occurrence),
        t.visitId f a.id = some (t.visitAll fun b => if b.id == a.id then f b else pure b)) ∧
      ∀ (σ : Type) (f : Occurrence → StateM σ Occurrence) (st : σ),
        (∃ work, t.visitId (noting f) a.id = some work ∧ (work.run (st, [])).2.2 = [a]) ∧
        ∃ work, t.visitId f a.id = some work ∧ SameBut (fun _ b => b.id = a.id) t (work.run st).1 ∧
          ((∀ b st, ((f b).run st).1.id = b.id) → ∀ id, (work.run st).1.findPath? id = t.findPath? id)) := by
  refine ⟨fun id hno m _ f => ?_, fun hids a ha => ⟨fun m _ _ f => visitId_of_nodup hids f ha, fun σ f st => ?_⟩⟩
  · rw [visitId, findPath?_eq_none_iff.2 hno]
    rfl
  · refine ⟨⟨_, visitId_of_nodup hids (noting f) ha, ?_⟩, _, visitId_of_nodup hids f ha, ?_, fun hkeeps => ?_⟩
    · rw [noted_visitAll_onlyWhere, filter_id_of_nodup hids ha, List.nil_append]
    · simpa only [beq_iff_eq] using sameBut_run_onlyWhere (·.id == a.id) f t st
    · refine findPath?_of_map_id (map_run_visitAll (fun b st => ?_) t st)
      unfold onlyWhere
      split
      · exact hkeeps b st
      · rfl

/-- The second of two leaves of one name is edited; the leaf behind it is found where it was. -/
theorem visitId_touches_one_nested :
    (List.map Occurrence.id (group {} [leaf {} ⟨2, { name := ['a'] }⟩, group {} [leaf {} ⟨5, { name := ['a'] }⟩,
      leaf {} ⟨3, { name := ['b'] }⟩]]).leaves).Nodup ∧
    (⟨5, { name := ['a'] }⟩ : Occurrence) ∈ (group {} [leaf {} ⟨2, { name := ['a'] }⟩,
      group {} [leaf {} ⟨5, { name := ['a'] }⟩, leaf {} ⟨3, { name := ['b'] }⟩]]).leaves ∧
    (∃ work : StateM Nat (Tree Occurrence), (group {} [leaf {} ⟨2, { name := ['a'] }⟩,
        group {} [leaf {} ⟨5, { name := ['a'] }⟩, leaf {} ⟨3, { name := ['b'] }⟩]]).visitId
          (fun a n => ({ a with term := a.term.setName ['c'] }, n + 1)) 5 = some work ∧
      work.run 0 = (group {} [leaf {} ⟨2, { name := ['a'] }⟩, group {} [leaf {} ⟨5, { name := ['c'] }⟩,
        leaf {} ⟨3, { name := ['b'] }⟩]], 1) ∧
      (work.run 0).1.findPath? 3 = some [1, 1]) ∧
    (group {} [leaf {} ⟨2, { name := ['a'] }⟩]).visitId (m := StateM Nat) (fun a n => (a, n + 1)) 5 = none := by
  have hids : (List.map Occurrence.id (group {} [leaf {} ⟨2, { name := ['a'] }⟩, group {} [leaf {} ⟨5, { name := ['a'] }⟩,
      leaf {} ⟨3, { name := ['b'] }⟩]]).leaves).Nodup := by
    simp
  have ha : (⟨5, { name := ['a'] }⟩ : Occurrence) ∈ (group {} [leaf {} ⟨2, { name := ['a'] }⟩,
      group {} [leaf {} ⟨5, { name := ['a'] }⟩, leaf {} ⟨3, { name := ['b'] }⟩]]).leaves := by
    simp
  obtain ⟨-, htouch⟩ := visitId_touches_one (group {} [leaf {} ⟨2, { name := ['a'] }⟩,
    group {} [leaf {} ⟨5, { name := ['a'] }⟩, leaf {} ⟨3, { name := ['b'] }⟩]])
  obtain ⟨hvisit, hstate⟩ := htouch hids _ ha
  obtain ⟨-, work, hwork, -, hpaths⟩ := hstate Nat (fun a n => ({ a with term := a.term.setName ['c'] }, n + 1)) 0
  refine ⟨hids, ha, ⟨work, hwork, ?_, (hpaths (fun _ _ => rfl) 3).trans (by decide)⟩, ?_⟩
  · rw [hvisit (StateM Nat)] at hwork
    rw [← Option.some.inj hwork]
    rfl
  · exact (visitId_touches_one (group {} [leaf {} ⟨2, { name := ['a'] }⟩])).1 5 (by simp) (StateM Nat) _

end Tree
end TermTree
