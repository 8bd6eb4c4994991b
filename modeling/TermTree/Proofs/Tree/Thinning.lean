/-
Leaving leaves out of a tree. `Thins test t u` says that `u` is `t` without the leaves below its root that pass the
test: every group and every other leaf is where it was. A tree is thinned in one way only (`Thins.unique`), and one
thinning after another is a single one by either test (`Thins.trans`). So what removal with several selectors does
is settled by which leaves some selector takes: their order does not matter, and a second removal finds nothing
(`removeLeaves_filters`).
-/
import TermTree.Tree.Removal

namespace TermTree.Tree
variable {α : Type} {test test' : α → Bool}

/-- `u` is `t` without the leaves below the root that pass the test; all else is in its place. -/
inductive Thins (test : α → Bool) : Tree α → Tree α → Prop where
  | leaf (g : Grammar) (a : α) : Thins test (leaf g a) (leaf g a)
  | empty (g : Grammar) : Thins test (group g []) (group g [])
  | out {g h : Grammar} {a : α} {cs : List (Tree α)} {u : Tree α} :
      test a = true → Thins test (group g cs) u → Thins test (group g (.leaf h a :: cs)) u
  | stays {g h : Grammar} {a : α} {cs ds : List (Tree α)} :
      test a = false → Thins test (group g cs) (group g ds) →
      Thins test (group g (.leaf h a :: cs)) (group g (.leaf h a :: ds))
  | inside {g h : Grammar} {cs ds es fs : List (Tree α)} :
      Thins test (group h es) (group h fs) → Thins test (group g cs) (group g ds) →
      Thins test (group g (group h es :: cs)) (group g (group h fs :: ds))

namespace Thins
variable {t u v : Tree α}

theorem unique (hu : Thins test t u) (hv : Thins test t v) : u = v := by
  induction hu generalizing v with
  | leaf g a =>
    cases hv
    rfl
  | empty g =>
    cases hv
    rfl
  | out ha _ ih =>
    cases hv with
    | out _ hv => exact ih hv
    | stays ha' =>
      rw [ha] at ha'
      contradiction
  | stays ha _ ih =>
    cases hv with
    | out ha' =>
      rw [ha] at ha'
      contradiction
    | stays _ hv =>
      cases ih hv
      rfl
  | inside _ _ ihe ih =>
    cases hv with
    | inside he hv =>
      cases ihe he
      cases ih hv
      rfl

/-- Thinned by one test and then by another, a tree is thinned by both. -/
theorem trans (hu : Thins test t u) (hv : Thins test' u v) : Thins (fun a => test a || test' a) t v := by
  induction hu generalizing v with
  | leaf g a =>
    cases hv
    exact .leaf g a
  | empty g =>
    cases hv
    exact .empty g
  | out ha _ ih => exact .out (by simp [ha]) (ih hv)
  | stays ha _ ih =>
    cases hv with
    | out ha' hv => exact .out (by simp [ha']) (ih hv)
    | stays ha' hv => exact .stays (by simp [ha, ha']) (ih hv)
  | inside _ _ ihe ih =>
    cases hv with
    | inside he hv => exact .inside (ihe he) (ih hv)

theorem leaves_eq_filter (hu : Thins test t u) (ht : t.shape = .group) :
    u.leaves = t.leaves.filter fun a => !test a := by
  induction hu with
  | leaf => contradiction
  | empty => simp
  | out ha _ ih =>
    rw [ih rfl]
    simp [ha]
  | stays ha _ ih =>
    have hrest := ih rfl
    simp only [leaves_group] at hrest
    simp [ha, hrest]
  | inside _ _ ihe ih =>
    have hes := ihe rfl
    have hrest := ih rfl
    simp only [leaves_group] at hes hrest
    simp [hes, hrest]

theorem refl (t : Tree α) (h : ∀ a ∈ t.leaves, test a = false) : Thins test t t := by
  induction t using induction with
  | leaf g a => exact .leaf g a
  | group g cs ih =>
    induction cs with
    | nil => exact .empty g
    | cons c cs ihcs =>
      rw [leaves_group, List.flatMap_cons] at h
      have hrest := ihcs (fun d hd => ih d (List.mem_cons_of_mem c hd)) fun a ha => h a (by
        rw [leaves_group] at ha
        exact List.mem_append_right _ ha)
      have hc : ∀ a ∈ c.leaves, test a = false := fun a ha => h a (List.mem_append_left _ ha)
      cases c with
      | leaf h a => exact .stays (hc a (by simp)) hrest
      | group h es => exact .inside (ih _ List.mem_cons_self hc) hrest

end Thins

/-! ## One test -/

theorem dropLeaves_group (g : Grammar) (cs : List (Tree α)) :
    (group g cs).dropLeaves test =
      group g (cs.filterMap fun c => if c.isLeafWhere test then none else some (dropLeaves test c)) := by
  rw [dropLeaves]

theorem thins_dropLeaves (t : Tree α) : Thins test t (t.dropLeaves test) := by
  induction t using induction with
  | leaf g a =>
    rw [dropLeaves]
    exact .leaf g a
  | group g cs ih =>
    rw [dropLeaves_group]
    induction cs with
    | nil => exact .empty g
    | cons c cs ihcs =>
      have hrest := ihcs fun d hd => ih d (List.mem_cons_of_mem c hd)
      have hc := ih c List.mem_cons_self
      cases c with
      | leaf h a =>
        by_cases ha : test a = true
        · rw [List.filterMap_cons_none (by simp [isLeafWhere, content?, ha])]
          exact .out ha hrest
        · rw [List.filterMap_cons_some (b := leaf h a) (by simp [isLeafWhere, content?, ha, dropLeaves])]
          exact .stays (by simpa using ha) hrest
      | group h es =>
        rw [dropLeaves_group] at hc
        rw [List.filterMap_cons_some (by rw [isLeafWhere, dropLeaves_group]; rfl)]
        exact .inside hc hrest

theorem countLeaves_add_length (t : Tree α) :
    t.countLeaves test + (t.dropLeaves test).leaves.length = t.leaves.length := by
  induction t using induction with
  | leaf g a => simp [countLeaves, dropLeaves]
  | group g cs ih =>
    rw [countLeaves, dropLeaves_group, leaves_group, leaves_group]
    induction cs with
    | nil => rfl
    | cons c cs ihcs =>
      have hrest := ihcs fun d hd => ih d (List.mem_cons_of_mem c hd)
      have hc := ih c List.mem_cons_self
      rw [List.map_cons, total_cons, List.flatMap_cons, List.length_append]
      by_cases hleaf : c.isLeafWhere test = true
      · have hone : c.leaves.length = 1 := by
          cases c with
          | leaf => simp
          | group => contradiction
        rw [List.filterMap_cons_none (by rw [if_pos hleaf]), if_pos hleaf]
        omega
      · rw [List.filterMap_cons_some (by rw [if_neg hleaf]), if_neg hleaf, List.flatMap_cons, List.length_append]
        omega

/-! ## Several selectors -/

theorem thins_removeLeaves (ss : List Selector) (t : Tree Occurrence) :
    Thins (fun a => ss.any (·.removes a)) t (t.removeLeaves ss).2 := by
  induction ss generalizing t with
  | nil => exact .refl t fun _ _ => rfl
  | cons s ss ih =>
    have hfirst : Thins s.removes t (t.dropLeaves s.removes) := thins_dropLeaves t
    exact hfirst.trans (ih _)

theorem removeLeaves_add_length (ss : List Selector) (t : Tree Occurrence) :
    (t.removeLeaves ss).1 + (t.removeLeaves ss).2.leaves.length = t.leaves.length := by
  induction ss generalizing t with
  | nil => exact Nat.zero_add _
  | cons s ss ih =>
    have hfirst : t.countLeaves s.removes + (t.dropLeaves s.removes).leaves.length = t.leaves.length :=
      countLeaves_add_length t
    have hrest := ih (t.dropLeaves s.removes)
    show t.countLeaves s.removes + ((t.dropLeaves s.removes).removeLeaves ss).1 +
      ((t.dropLeaves s.removes).removeLeaves ss).2.leaves.length = _
    omega

/-- Removals that leave the same tree count the same leaves. -/
theorem removeLeaves_eq_of_thins {ss : List Selector} {t u : Tree Occurrence}
    (hu : Thins (fun a => ss.any (·.removes a)) t u) : t.removeLeaves ss = (t.leaves.length - u.leaves.length, u) := by
  have heq := (thins_removeLeaves ss t).unique hu
  have hcount := removeLeaves_add_length ss t
  rw [heq] at hcount
  refine Prod.ext ?_ heq
  show (t.removeLeaves ss).1 = t.leaves.length - u.leaves.length
  omega

/-- **Removal with selectors is a filter.** From a group exactly those leaves go, at whatever depth, that some
selector takes; the others stay as they were, in their order, and so do all groups, also emptied ones. What is
counted is how many leaves have gone. The selectors may stand in any order, and a second removal does nothing. -/
theorem removeLeaves_filters (g : Grammar) (cs : List (Tree Occurrence)) (ss : List Selector) :
    Thins (fun a => ss.any (·.removes a)) (group g cs) ((group g cs).removeLeaves ss).2 ∧
    ((group g cs).removeLeaves ss).2.leaves = (group g cs).leaves.filter (fun a => !ss.any (·.removes a)) ∧
    ((group g cs).removeLeaves ss).1 + ((group g cs).removeLeaves ss).2.leaves.length = (group g cs).leaves.length ∧
    (∀ ss', ss.Perm ss' → (group g cs).removeLeaves ss' = (group g cs).removeLeaves ss) ∧
    ((group g cs).removeLeaves ss).2.removeLeaves ss = (0, ((group g cs).removeLeaves ss).2) := by
  have hthins := thins_removeLeaves ss (group g cs)
  have hleaves := hthins.leaves_eq_filter rfl
  refine ⟨hthins, hleaves, removeLeaves_add_length ss _, ?_, ?_⟩
  · intro ss' hperm
    have hsame : (fun a : Occurrence => ss.any (·.removes a)) = fun a => ss'.any (·.removes a) := by
      funext a
      exact hperm.any_eq
    rw [removeLeaves_eq_of_thins hthins]
    rw [hsame] at hthins
    exact removeLeaves_eq_of_thins hthins
  · have hnone : ∀ a ∈ ((group g cs).removeLeaves ss).2.leaves, ss.any (·.removes a) = false := by
      intro a ha
      rw [hleaves, List.mem_filter] at ha
      simpa using ha.2
    rw [removeLeaves_eq_of_thins (.refl _ hnone), Nat.sub_self]

/-- A leaf that both selectors take, one in a group that is left empty, and one whose parameter saves it. -/
theorem removeLeaves_swapped :
    [Selector.name ['a'], .test fun a => a.term.parameters.isEmpty].Perm
      [.test fun a => a.term.parameters.isEmpty, .name ['a']] ∧
    (group {} [leaf {} ⟨0, { name := ['a'] }⟩, group {} [leaf {} ⟨1, { name := ['b'] }⟩],
        leaf {} ⟨2, { name := ['a'], parameters := [⟨['.'], ['x']⟩] }⟩]).removeLeaves
      [.test fun a => a.term.parameters.isEmpty, .name ['a']] =
      (2, group {} [group {} [], leaf {} ⟨2, { name := ['a'], parameters := [⟨['.'], ['x']⟩] }⟩]) := by
  have hperm : [Selector.name ['a'], .test fun a => a.term.parameters.isEmpty].Perm
      [.test fun a => a.term.parameters.isEmpty, .name ['a']] := .swap _ _ []
  refine ⟨hperm, ?_⟩
  rw [(removeLeaves_filters {} _ _).2.2.2.1 _ hperm]
  simp [removeLeaves, removeEach, countLeaves, dropLeaves, isLeafWhere, content?, Selector.removes]

end TermTree.Tree
