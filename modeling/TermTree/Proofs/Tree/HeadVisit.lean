/-
A visit of the heads in parts: the first head, and then the others. A visit of the heads is the two visits one after the
other, with the same effects in the same order (`visitHeads_eq_first_then_rest`). Which leaves it comes to can be read
off the paths: the leaf of a child is the one at the end of the chain of first children, and a chain that ends in an
empty group has none (`first?_eq_none_iff`), though there may be leaves farther to the right.
-/
import TermTree.Proofs.Tree.Heads
import TermTree.Proofs.Tree.Visit

namespace TermTree

/-- The path goes by first children only. -/
def Path.Leftmost (p : Path) : Prop := ∀ i ∈ p, i = 0

theorem Path.leftmost_nil : Leftmost [] := fun _ hi => absurd hi List.not_mem_nil

theorem Path.leftmost_cons {i : Nat} {p : Path} : Leftmost (i :: p) ↔ i = 0 ∧ Leftmost p := List.forall_mem_cons

namespace Tree
open TermTree.Path
variable {α : Type}

/-- A visit of the heads is a visit of the first one, and then of the others. -/
theorem visitHeads_eq_first_then_rest {m : Type → Type} [Monad m] [LawfulMonad m] (f : α → m α) (t : Tree α) :
    t.visitHeads f = t.visitFirst f >>= visitRest f := by
  cases t with
  | leaf g a => simp [visitHeads, visitFirst, visitRest]
  | group g cs =>
    cases cs with
    | nil => simp [visitHeads, visitFirst, visitRest]
    | cons c cs => simp [visitHeads, visitFirst, visitRest, List.mapM_cons]

/-! ## Chains of first children -/

/-- Where there is no first leaf, the chain of first children ends in an empty group. -/
theorem first?_eq_none_iff {t : Tree α} : t.first? = none ↔ ∃ p g, Leftmost p ∧ t.get? p = some (group g []) := by
  induction t using induction with
  | leaf g a =>
    constructor
    · intro h
      contradiction
    · rintro ⟨p, k, -, hget⟩
      cases p with
      | nil => cases hget
      | cons i p => contradiction
  | group g cs ih =>
    cases cs with
    | nil => exact ⟨fun _ => ⟨[], g, leftmost_nil, rfl⟩, fun _ => rfl⟩
    | cons c cs =>
      rw [first?, ih c List.mem_cons_self]
      constructor
      · rintro ⟨p, k, hp, hget⟩
        exact ⟨0 :: p, k, leftmost_cons.2 ⟨rfl, hp⟩, hget⟩
      · rintro ⟨p, k, hp, hget⟩
        cases p with
        | nil => cases hget
        | cons i p =>
          obtain ⟨rfl, hrest⟩ := leftmost_cons.1 hp
          exact ⟨p, k, hrest, hget⟩

/-! ## Marks by their paths -/

section
variable {t : Tree α} {p : Path} {g : Grammar} {a : α}

theorem get?_unmarked (h : t.get? p = some (leaf g a)) : t.unmarked.get? p = some (leaf g (a, false)) := by
  rw [unmarked, get?_map, h, Option.map_some, map_leaf]

theorem get?_markFirst (h : t.get? p = some (leaf g a)) :
    ∃ mark, t.markFirst.get? p = some (leaf g (a, mark)) ∧ (mark = true ↔ Leftmost p) := by
  induction p generalizing t with
  | nil =>
    cases h
    exact ⟨true, by rw [markFirst_leaf]; rfl, fun _ => leftmost_nil, fun _ => rfl⟩
  | cons i p ih =>
    obtain ⟨k, cs, d, rfl, hd, hget⟩ := get?_cons h
    cases cs with
    | nil => contradiction
    | cons c cs =>
      rw [markFirst_group_cons, get?_group_cons, leftmost_cons]
      cases i with
      | zero =>
        cases hd
        obtain ⟨mark, hmark, hiff⟩ := ih hget
        exact ⟨mark, hmark, by rw [hiff]; simp⟩
      | succ i =>
        refine ⟨false, ?_, by simp⟩
        rw [List.getElem?_cons_succ] at hd ⊢
        rw [List.getElem?_map, hd]
        exact get?_unmarked hget

/-- A leaf of a group is marked as a head exactly if its path goes by first children from a child of the root on. -/
theorem get?_markHeads {k : Grammar} {cs : List (Tree α)} (h : (group k cs).get? p = some (leaf g a)) :
    ∃ mark, (group k cs).markHeads.get? p = some (leaf g (a, mark)) ∧
      (mark = true ↔ ∃ i q, p = i :: q ∧ Leftmost q) := by
  cases p with
  | nil => cases h
  | cons i p =>
    rw [get?_group_cons] at h
    obtain ⟨c, hc, hget⟩ := Option.bind_eq_some_iff.1 h
    obtain ⟨mark, hmark, hiff⟩ := get?_markFirst hget
    refine ⟨mark, ?_, hiff.trans ⟨fun hp => ⟨i, p, rfl, hp⟩, fun ⟨_, _, heq, hp⟩ => (List.cons.inj heq).2 ▸ hp⟩⟩
    rw [markHeads_group, get?_group_cons, List.getElem?_map, hc]
    exact hmark

end

/-! ## What a visit of the heads does -/

section
variable {σ : Type} (f : α → StateM σ α) (g : Grammar) (cs : List (Tree α))

theorem noted_visitHeads (st : σ × List α) :
    (((group g cs).visitHeads (noting f)).run st).2.2 = st.2 ++ cs.filterMap first? := by
  have hk : ∀ b, onMarked (noting f) b = if b.2 then noting f b.1 else pure b.1 := fun _ => rfl
  rw [visitHeads_eq_visitAll, noted_visitAll hk, filter_leaves_markHeads]

theorem sameBut_visitHeads (st : σ) :
    SameBut (fun p _ => ∃ i q, p = i :: q ∧ Leftmost q) (group g cs) (((group g cs).visitHeads f).run st).1 := by
  rw [visitHeads_eq_visitAll]
  refine sameBut_run_visitAll (map_fst_markHeads _) (fun p k b hb huntouched => ?_) st
  have hget : (group g cs).get? p = some (leaf k b.1) := by
    rw [← map_fst_markHeads (group g cs), get?_map, hb, Option.map_some, map_leaf]
  obtain ⟨mark, hmark, hiff⟩ := get?_markHeads hget
  rw [hb] at hmark
  have hsnd : b.2 = mark := congrArg Prod.snd (leaf.inj (Option.some.inj hmark)).2
  rw [← hsnd] at hiff
  exact if_neg fun hmarked => huntouched (hiff.1 hmarked)

theorem get?_visitHeads {i : Nat} {p : Path} {k : Grammar} {a : α} (hp : Leftmost p)
    (h : (group g cs).get? (i :: p) = some (leaf k a)) (st : σ) :
    ∃ st', (((group g cs).visitHeads f).run st).1.get? (i :: p) = some (leaf k ((f a).run st').1) := by
  obtain ⟨mark, hmark, hiff⟩ := get?_markHeads h
  obtain ⟨st', hget⟩ := get?_run_visitAll (onMarked f) hmark st
  rw [visitHeads_eq_visitAll]
  rw [onMarked, if_pos (hiff.2 ⟨i, p, rfl, hp⟩)] at hget
  exact ⟨st', hget⟩

end

/-- **A visit of the heads is a visit of the first head followed by one of the others**, with any edit, on any tree. In
a group, what the edit is handed are the first leaves of the children, in their order; a child has none exactly if its
chain of first children ends in an empty group. A leaf at the end of such a chain carries afterwards what the edit gave
for it, and all else is as it was. -/
theorem visitHeads_parts :
    (∀ (n : Tree Occurrence) (m : Type → Type) [Monad m] [LawfulMonad m] (f : Occurrence → m Occurrence),
      n.visitHeads f = n.visitFirst f >>= visitRest f) ∧
    ∀ (g : Grammar) (cs : List (Tree Occurrence)),
      (∀ (σ : Type) (f : Occurrence → StateM σ Occurrence) (st : σ),
        (((group g cs).visitHeads (noting f)).run (st, [])).2.2 = cs.filterMap first? ∧
        SameBut (fun p _ => ∃ i q, p = i :: q ∧ Leftmost q) (group g cs) (((group g cs).visitHeads f).run st).1 ∧
        ∀ i p k a, Leftmost p → (group g cs).get? (i :: p) = some (leaf k a) →
          ∃ st', (((group g cs).visitHeads f).run st).1.get? (i :: p) = some (leaf k ((f a).run st').1)) ∧
      ∀ c ∈ cs, (∀ a, c.first? = some a → ∃ k, (LeafCursor.ofTree c).toList.head? = some (leaf k a)) ∧
        (c.first? = none ↔ ∃ p k, Leftmost p ∧ c.get? p = some (group k [])) := by
  refine ⟨fun n m _ _ f => visitHeads_eq_first_then_rest f n, fun g cs => ⟨fun σ f st => ⟨?_, ?_, ?_⟩, ?_⟩⟩
  · exact noted_visitHeads f g cs (st, [])
  · exact sameBut_visitHeads f g cs st
  · exact fun i p k a hp hget => get?_visitHeads f g cs hp hget st
  · intro c _
    refine ⟨fun a ha => ?_, first?_eq_none_iff⟩
    rw [LeafCursor.toList_ofTree]
    exact head?_leafNodes_of_first? ha

/-- The chain of the first child ends in an empty group, though there is a leaf behind that; the others have heads. -/
theorem visitHeads_parts_blocked :
    LawfulMonad (StateM Nat) ∧
    ((group {} [group {} [group {} [], leaf {} ⟨0, { name := ['a'] }⟩], leaf {} ⟨1, { name := ['a'] }⟩,
        group {} [leaf {} ⟨2, { name := ['a'] }⟩, leaf {} ⟨3, { name := ['a'] }⟩]] : Tree Occurrence).visitHeads
      (m := StateM Nat) fun a n => ({ a with term := a.term.setName ['b'] }, n + 1)).run 0 =
        (group {} [group {} [group {} [], leaf {} ⟨0, { name := ['a'] }⟩], leaf {} ⟨1, { name := ['b'] }⟩,
          group {} [leaf {} ⟨2, { name := ['b'] }⟩, leaf {} ⟨3, { name := ['a'] }⟩]], 2) ∧
    Leftmost [0] ∧ (group {} [group {} [], leaf {} (⟨0, { name := ['a'] }⟩ : Occurrence)]).get? [0] = some (group {} []) ∧
    (group {} [group {} [], leaf {} (⟨0, { name := ['a'] }⟩ : Occurrence)]).first? = none ∧
    (group {} [leaf {} ⟨2, { name := ['a'] }⟩, leaf {} ⟨3, { name := ['a'] }⟩] : Tree Occurrence).first? =
      some ⟨2, { name := ['a'] }⟩ ∧
    ∃ k, (LeafCursor.ofTree (group {} [leaf {} ⟨2, { name := ['a'] }⟩,
      leaf {} ⟨3, { name := ['a'] }⟩] : Tree Occurrence)).toList.head? = some (leaf k ⟨2, { name := ['a'] }⟩) := by
  have hleft : Leftmost [0] := by simp [Leftmost]
  obtain ⟨hparts, hgroup⟩ := visitHeads_parts
  obtain ⟨-, hchildren⟩ := hgroup {} [group {} [group {} [], leaf {} ⟨0, { name := ['a'] }⟩],
    leaf {} ⟨1, { name := ['a'] }⟩, group {} [leaf {} ⟨2, { name := ['a'] }⟩, leaf {} ⟨3, { name := ['a'] }⟩]]
  refine ⟨inferInstance, ?_, hleft, rfl, ?_, rfl, ?_⟩
  · rw [hparts _ (StateM Nat)]
    rfl
  · exact (hchildren _ (by simp)).2.2 ⟨[0], {}, hleft, rfl⟩
  · exact (hchildren (group {} [leaf {} ⟨2, { name := ['a'] }⟩, leaf {} ⟨3, { name := ['a'] }⟩]) (by simp)).1 _ rfl

end Tree
end TermTree
