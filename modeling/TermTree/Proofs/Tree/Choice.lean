/-
What selectors choose. A bare name chooses what the term of that name without parameters chooses, for removal and for
selection alike: the term covers nothing but its name, and is equivalent only to a term that has no parameters either.
And a selector that takes a leaf out would have selected it, since terms that are equivalent cover each other. Trees
ask of a selector only which leaves it chooses (`removeEach_congr`), so both facts carry over to whole trees
(`bareName_chooses`).
-/
import TermTree.Proofs.Term.Pairs
import TermTree.Proofs.Tree.LeafPath
import TermTree.Proofs.Tree.Thinning
import TermTree.Tree.Selection

namespace TermTree

/-! ## One leaf -/

namespace Term

theorem covers_bare {a : Term} {x : Text} {g : Grammar} :
    a.covers { name := x, grammar := g } = true ↔ a.name = x := by
  simp [covers_iff]

theorem equivalent_bare {a : Term} {x : Text} {g : Grammar} :
    a.equivalent { name := x, grammar := g } = true ↔ a.name = x ∧ a.parameters = [] := by
  simp [equivalent_iff, List.eq_nil_iff_forall_not_mem]

end Term

namespace Selector

theorem removes_bare (x : Text) (g : Grammar) :
    (Selector.term { name := x, grammar := g }).removes = (Selector.name x).removes := by
  funext a
  rw [Bool.eq_iff_iff, removes, removes, Term.equivalent_bare, Bool.and_eq_true, beq_iff_eq, List.isEmpty_iff]

theorem selects_bare (x : Text) (g : Grammar) :
    (Selector.term { name := x, grammar := g }).selects = (Selector.name x).selects := by
  funext a
  rw [Bool.eq_iff_iff, selects, selects, Term.covers_bare, beq_iff_eq]

theorem selects_of_removes {s : Selector} {a : Occurrence} (h : s.removes a = true) : s.selects a = true := by
  cases s with
  | name x => exact (Bool.and_eq_true_iff.1 h).1
  | term b => exact Term.covers_of_equivalent h
  | test p => exact h

end Selector

/-! ## Whole trees -/

namespace Tree
variable {α : Type} {test test' : α → Bool}

/-- Removal with one selector after another asks of each only which leaves it takes. -/
theorem removeEach_congr {k : (Occurrence → Bool) → Tree Occurrence → Nat × Tree Occurrence} {ss ss' : List Selector}
    (h : ss.map Selector.removes = ss'.map Selector.removes) (t : Tree Occurrence) :
    removeEach (fun s => k s.removes) ss t = removeEach (fun s => k s.removes) ss' t := by
  induction ss generalizing ss' t with
  | nil =>
    obtain rfl := List.map_eq_nil_iff.1 h.symm
    rfl
  | cons s ss ih =>
    cases ss' with
    | nil => contradiction
    | cons s' ss' =>
      obtain ⟨hhead, htail⟩ := List.cons.inj h
      simp only [removeEach, hhead, ih htail]

theorem removeEach_bare (k : (Occurrence → Bool) → Tree Occurrence → Nat × Tree Occurrence) (x : Text) (g : Grammar)
    (ss ss' : List Selector) (t : Tree Occurrence) :
    removeEach (fun s => k s.removes) (ss ++ .name x :: ss') t =
      removeEach (fun s => k s.removes) (ss ++ .term { name := x, grammar := g } :: ss') t := by
  apply removeEach_congr
  rw [List.map_append, List.map_append, List.map_cons, List.map_cons, Selector.removes_bare]

theorem countLeaves_group (g : Grammar) (cs : List (Tree α)) :
    (group g cs).countLeaves test = (group g cs).leaves.countP test := by
  have hcount : (group g cs).countLeaves test + ((group g cs).dropLeaves test).leaves.length =
      (group g cs).leaves.length := countLeaves_add_length _
  have hthins : Thins test (group g cs) ((group g cs).dropLeaves test) := thins_dropLeaves _
  have hleft := hthins.leaves_eq_filter rfl
  have hsplit (as : List α) : as.countP test + (as.filter fun a => !test a).length = as.length := by
    simpa [List.countP_eq_length_filter] using (List.length_eq_countP_add_countP test).symm
  have hleaves := hsplit (group g cs).leaves
  rw [hleft] at hcount
  omega

theorem countLeaves_le_length_pathsWhere (h : ∀ a, test a = true → test' a = true) (t : Tree α) :
    t.countLeaves test ≤ (t.pathsWhere test').length := by
  cases t with
  | leaf g a =>
    rw [countLeaves]
    exact Nat.zero_le _
  | group g cs =>
    rw [countLeaves_group, length_pathsWhere, ← List.countP_eq_length_filter]
    exact List.countP_mono_left fun a _ => h a

/-- **A bare name is the term without parameters, and what removal takes, selection finds.** For every tree, name and
grammar, a bare name among the selectors may be exchanged for the term that has this name and no parameters: removal
of first leaves and of all leaves leaves the same tree and counts the same, and the selection is the same one. With
whatever selector, removal of all leaves leaves out those leaves below the root that the selector takes; it would also
have selected each of them, so no more leaves are counted than are selected. -/
theorem bareName_chooses (t : Tree Occurrence) (x : Text) (g : Grammar) :
    (∀ ss ss', t.removeHeads (ss ++ .name x :: ss') =
      t.removeHeads (ss ++ .term { name := x, grammar := g } :: ss')) ∧
    (∀ ss ss', t.removeLeaves (ss ++ .name x :: ss') =
      t.removeLeaves (ss ++ .term { name := x, grammar := g } :: ss')) ∧
    t.select (.name x) = t.select (.term { name := x, grammar := g }) ∧
    ∀ s : Selector, Thins s.removes t (t.removeLeaves [s]).2 ∧
      (∀ p h a, t.get? p = some (leaf h a) → s.removes a = true → p ∈ (t.select s).paths) ∧
      (t.removeLeaves [s]).1 ≤ (t.select s).size := by
  refine ⟨fun ss ss' => removeEach_bare dropHeads x g ss ss' t,
    fun ss ss' => removeEach_bare (fun test t => (t.countLeaves test, t.dropLeaves test)) x g ss ss' t, ?_,
    fun s => ⟨thins_dropLeaves t, fun p h a hget ha => ?_, ?_⟩⟩
  · rw [select, select, Selector.selects_bare]
  · exact mem_pathsWhere.2 ⟨h, a, hget, Selector.selects_of_removes ha⟩
  · exact countLeaves_le_length_pathsWhere (fun _ => Selector.selects_of_removes) t

/-- Of two leaves named `a` that are selected, the one without parameters is removed, also where only first leaves are
and the term stands for the name. -/
theorem bareName_chooses_two :
    (group {} [leaf {} ⟨0, ['a'], [], {}⟩, group {} [leaf {} ⟨1, ['a'], [⟨['.'], ['x']⟩], {}⟩]] :
      Tree Occurrence).get? [0] = some (leaf {} ⟨0, ['a'], [], {}⟩) ∧
    (Selector.name ['a']).removes ⟨0, ['a'], [], {}⟩ = true ∧
    [0] ∈ ((group {} [leaf {} ⟨0, ['a'], [], {}⟩, group {} [leaf {} ⟨1, ['a'], [⟨['.'], ['x']⟩], {}⟩]] :
      Tree Occurrence).select (.name ['a'])).paths ∧
    ((group {} [leaf {} ⟨0, ['a'], [], {}⟩, group {} [leaf {} ⟨1, ['a'], [⟨['.'], ['x']⟩], {}⟩]] :
      Tree Occurrence).removeLeaves [.name ['a']]).1 ≤ 2 ∧
    (group {} [leaf {} ⟨0, ['a'], [], {}⟩, group {} [leaf {} ⟨1, ['a'], [⟨['.'], ['x']⟩], {}⟩]] :
      Tree Occurrence).removeHeads [.term ⟨['a'], [], {}⟩] =
        (1, group {} [group {} [leaf {} ⟨1, ['a'], [⟨['.'], ['x']⟩], {}⟩]]) := by
  obtain ⟨hheads, -, -, hchosen⟩ := bareName_chooses (group {} [leaf {} ⟨0, ['a'], [], {}⟩,
    group {} [leaf {} ⟨1, ['a'], [⟨['.'], ['x']⟩], {}⟩]]) ['a'] {}
  obtain ⟨-, hselected, hcount⟩ := hchosen (.name ['a'])
  exact ⟨rfl, rfl, hselected [0] {} ⟨0, ['a'], [], {}⟩ rfl rfl, hcount, (hheads [] []).symm.trans rfl⟩

end Tree
end TermTree
