/-
The paths of the leaves. The search for leaves that pass a test gives exactly the paths that lead to such leaves
(`mem_pathsWhere`), each before those that are greater in the lexicographic order (`pairwise_pathsWhere`). This is
also the order of the leaves in the tree (`map_get?_pathsWhere`) and the order in which a cursor comes to them
(`LeafCursor.toList_ofTree`).
-/
import TermTree.Tree.Cursor
import TermTree.Tree.Path
import TermTree.Tree.Removal

namespace TermTree
namespace Tree
variable {α β : Type}

/-! ## Following a path -/

@[simp] theorem get?_nil (t : Tree α) : t.get? [] = some t := rfl

@[simp] theorem get?_leaf_cons (g : Grammar) (a : α) (i : Nat) (p : Path) : (leaf g a).get? (i :: p) = none := rfl

theorem get?_group_cons (g : Grammar) (cs : List (Tree α)) (i : Nat) (p : Path) :
    (group g cs).get? (i :: p) = cs[i]?.bind (·.get? p) := by
  simp only [get?]
  cases cs[i]? <;> rfl

theorem get?_cons {t n : Tree α} {i : Nat} {p : Path} (h : t.get? (i :: p) = some n) :
    ∃ g cs c, t = group g cs ∧ cs[i]? = some c ∧ c.get? p = some n := by
  cases t with
  | leaf g a => contradiction
  | group g cs =>
    rw [get?_group_cons] at h
    obtain ⟨c, hc, hn⟩ := Option.bind_eq_some_iff.1 h
    exact ⟨g, cs, c, rfl, hc, hn⟩

theorem get?_append (t : Tree α) (p q : Path) : t.get? (p ++ q) = (t.get? p).bind (·.get? q) := by
  induction p generalizing t with
  | nil => rfl
  | cons i p ih =>
    cases t with
    | leaf g a => rfl
    | group g cs =>
      rw [List.cons_append, get?_group_cons, get?_group_cons]
      cases cs[i]? with
      | none => rfl
      | some c => exact ih c

theorem get?_map (f : α → β) (t : Tree α) (p : Path) : (t.map f).get? p = (t.get? p).map (map f) := by
  induction p generalizing t with
  | nil => rfl
  | cons i p ih =>
    cases t with
    | leaf g a =>
      rw [map_leaf]
      rfl
    | group g cs =>
      rw [map_group, get?_group_cons, get?_group_cons, List.getElem?_map]
      cases cs[i]? with
      | none => rfl
      | some c => exact ih c

/-- What stands at the end of a path that is not the root is a child of the node that the path is in. -/
theorem get?_concat {t n : Tree α} {p : Path} {i : Nat} (h : t.get? (p ++ [i]) = some n) :
    ∃ g cs, t.get? p = some (group g cs) ∧ cs[i]? = some n := by
  rw [get?_append] at h
  obtain ⟨m, hm, hn⟩ := Option.bind_eq_some_iff.1 h
  obtain ⟨g, cs, c, rfl, hc, hroot⟩ := get?_cons hn
  cases hroot
  exact ⟨g, cs, hm, hc⟩

/-! ## The paths that are found -/

section
variable {test : α → Bool} {p : Path}

theorem mem_pathsFrom {i : Nat} {cs : List (Tree α)} :
    p ∈ pathsFrom test i cs ↔ ∃ j c q, cs[j]? = some c ∧ p = (i + j) :: q ∧ q ∈ c.pathsWhere test := by
  induction cs generalizing i with
  | nil => simp [pathsFrom]
  | cons c cs ih =>
    rw [pathsFrom, List.mem_append, List.mem_map, ih]
    constructor
    · rintro (⟨q, hq, rfl⟩ | ⟨j, d, q, hd, rfl, hq⟩)
      · exact ⟨0, c, q, rfl, rfl, hq⟩
      · exact ⟨j + 1, d, q, hd, by rw [Nat.add_right_comm]; rfl, hq⟩
    · rintro ⟨_ | j, d, q, hd, rfl, hq⟩
      · cases hd
        exact .inl ⟨q, hq, rfl⟩
      · exact .inr ⟨j, d, q, hd, by rw [Nat.add_right_comm]; rfl, hq⟩

/-- **The paths found are those of the leaves that pass the test.** -/
theorem mem_pathsWhere {t : Tree α} : p ∈ t.pathsWhere test ↔ ∃ g a, t.get? p = some (leaf g a) ∧ test a = true := by
  induction p generalizing t with
  | nil =>
    cases t with
    | leaf g a =>
      by_cases ha : test a = true
      · rw [pathsWhere, if_pos ha]
        exact ⟨fun _ => ⟨g, a, rfl, ha⟩, fun _ => List.mem_singleton_self []⟩
      · simp [pathsWhere, ha]
    | group g cs => simp [pathsWhere, mem_pathsFrom]
  | cons i p ih =>
    cases t with
    | leaf g a => by_cases ha : test a = true <;> simp [pathsWhere, ha]
    | group g cs =>
      rw [pathsWhere, mem_pathsFrom, get?_group_cons]
      constructor
      · rintro ⟨j, c, q, hc, hp, hq⟩
        rw [Nat.zero_add] at hp
        cases hp
        rw [hc]
        exact ih.1 hq
      · rintro ⟨h, a, hget, ha⟩
        obtain ⟨c, hc, hcget⟩ := Option.bind_eq_some_iff.1 hget
        exact ⟨i, c, p, hc, by rw [Nat.zero_add], ih.2 ⟨h, a, hcget, ha⟩⟩

theorem pairwise_pathsWhere (test : α → Bool) (t : Tree α) : (t.pathsWhere test).Pairwise (List.Lex (· < ·)) := by
  induction t using induction with
  | leaf g a => by_cases ha : test a = true <;> simp [pathsWhere, ha]
  | group g cs ih =>
    rw [pathsWhere]
    generalize 0 = i
    induction cs generalizing i with
    | nil => exact .nil
    | cons c cs ihcs =>
      have hc := ih c List.mem_cons_self
      have hcs := ihcs (fun d hd => ih d (List.mem_cons_of_mem c hd)) (i + 1)
      rw [pathsFrom, List.pairwise_append, List.pairwise_map]
      refine ⟨hc.imp .cons, hcs, ?_⟩
      -- a path into `c` begins with `i`, the others with a greater index
      intro p hp q hq
      obtain ⟨p, -, rfl⟩ := List.mem_map.1 hp
      obtain ⟨j, d, q, -, rfl, -⟩ := mem_pathsFrom.1 hq
      exact .rel (by omega)

end

/-! ## The leaves in their order -/

@[simp] theorem leafNodes_leaf (g : Grammar) (a : α) : (leaf g a).leafNodes = [leaf g a] := by
  rw [leafNodes]

@[simp] theorem leafNodes_group (g : Grammar) (cs : List (Tree α)) :
    (group g cs).leafNodes = cs.flatMap leafNodes := by
  rw [leafNodes]

/-- The first leaf in the order of the leaves is the end of the chain of first children, where that is a leaf. -/
theorem head?_leafNodes_of_first? {t : Tree α} {a : α} (h : t.first? = some a) :
    ∃ g, t.leafNodes.head? = some (leaf g a) := by
  induction t using induction with
  | leaf g b =>
    cases h
    exact ⟨g, by rw [leafNodes_leaf]; rfl⟩
  | group g cs ih =>
    cases cs with
    | nil => contradiction
    | cons c cs =>
      obtain ⟨k, hk⟩ := ih c List.mem_cons_self h
      refine ⟨k, ?_⟩
      rw [leafNodes_group, List.flatMap_cons, List.head?_append, hk]
      rfl

section
variable (test : α → Bool)

theorem map_get?_pathsFrom (g : Grammar) (before cs : List (Tree α)) :
    (pathsFrom test before.length cs).map (group g (before ++ cs)).get? =
      cs.flatMap fun c => (c.pathsWhere test).map c.get? := by
  induction cs generalizing before with
  | nil => rfl
  | cons c cs ih =>
    have hc : (group g (before ++ c :: cs)).get? ∘ (before.length :: ·) = c.get? := by
      funext p
      rw [Function.comp_apply, get?_group_cons, List.getElem?_append_right (Nat.le_refl _), Nat.sub_self]
      rfl
    have hcs := ih (before ++ [c])
    rw [List.length_append, List.append_assoc] at hcs
    rw [pathsFrom, List.map_append, List.map_map, hc, List.flatMap_cons]
    exact congrArg _ hcs

/-- **The paths found are in the order of the leaves.** -/
theorem map_get?_pathsWhere (t : Tree α) :
    (t.pathsWhere test).map t.get? = (t.leafNodes.filter (isLeafWhere test)).map some := by
  induction t using induction with
  | leaf g a => by_cases ha : test a = true <;> simp [pathsWhere, isLeafWhere, content?, ha]
  | group g cs ih =>
    have hcs := map_get?_pathsFrom test g [] cs
    rw [List.length_nil, List.nil_append] at hcs
    rw [pathsWhere, hcs, leafNodes_group, List.filter_flatMap, List.map_flatMap, List.flatMap_def, List.flatMap_def,
      List.map_congr_left ih]

theorem map_content?_leafNodes (t : Tree α) :
    (t.leafNodes.filter (isLeafWhere test)).map content? = (t.leaves.filter test).map some := by
  induction t using induction with
  | leaf g a => by_cases ha : test a = true <;> simp [isLeafWhere, content?, ha]
  | group g cs ih =>
    rw [leafNodes_group, leaves_group, List.filter_flatMap, List.filter_flatMap, List.map_flatMap, List.map_flatMap,
      List.flatMap_def, List.flatMap_def, List.map_congr_left ih]

theorem filterMap_of_map_eq {f : α → Option β} {as : List α} {bs : List β} (h : as.map f = bs.map some) :
    as.filterMap f = bs := by
  have hbs := congrArg (List.filterMap id) h
  simpa [List.filterMap_map] using hbs

theorem length_pathsWhere (t : Tree α) : (t.pathsWhere test).length = (t.leaves.filter test).length := by
  have hnodes := congrArg List.length (map_get?_pathsWhere test t)
  have hleaves := congrArg List.length (map_content?_leafNodes test t)
  simp only [List.length_map] at hnodes hleaves
  rw [hnodes, hleaves]

end
end Tree

/-! ## The cursor -/

namespace LeafCursor
variable {α : Type}

/-- What comes next is the first of the leaves on the stack, and the cursor behind it has the others. -/
theorem flatMap_leafNodes_stack (c : LeafCursor α) :
    c.stack.flatMap Tree.leafNodes =
      match c.next? with
      | none => []
      | some found => found.1 :: found.2.stack.flatMap Tree.leafNodes := by
  fun_induction next? c with
  | case1 c hs => rw [hs, List.flatMap_nil]
  | case2 c g a rest hs => rw [hs, List.flatMap_cons, Tree.leafNodes_leaf, List.singleton_append]
  | case3 c g cs rest hs ih => rw [hs, List.flatMap_cons, Tree.leafNodes_group, ← List.flatMap_append, ih]

theorem toList_eq_flatMap (c : LeafCursor α) : c.toList = c.stack.flatMap Tree.leafNodes := by
  rw [flatMap_leafNodes_stack]
  fun_induction toList c with
  | case1 c hnext => rw [hnext]
  | case2 c found hnext ih => rw [hnext, ih, ← flatMap_leafNodes_stack]

/-- A cursor comes to the leaves of a tree in their order, to each once. -/
theorem toList_ofTree (t : Tree α) : (ofTree t).toList = t.leafNodes := by
  rw [toList_eq_flatMap]
  simp [ofTree]

end LeafCursor
end TermTree
