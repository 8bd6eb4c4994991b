/-
What the functions that build, join, change and copy trees do with occurrences. Reading a text draws a fresh
identity for each term; putting trees together loses none of their leaves; a replaced child and the leaves that a
selector takes are gone, and nothing else is.
-/
import TermTree.Proofs.Identity.Moved
import TermTree.Proofs.Tree.RoundTrip
import TermTree.Tree.Selection

namespace TermTree

/-- The occurrences that an item brings. -/
def Item.occurrences : Item → List Occurrence
  | .text _ => []
  | .tree t => t.leaves

theorem Occurrence.fresh_run (s : Supply) (a : Term) :
    s.Fresh ((Occurrence.fresh a).run s).2 [((Occurrence.fresh a).run s).1] where
  le := Nat.le_succ _
  nodup := by simp
  drawn b hb := by
    rw [List.mem_singleton.1 hb]
    exact ⟨Nat.le_refl _, Nat.lt_succ_self _⟩

namespace Tree
variable {Gone : Occurrence → Prop} {g : Grammar}

/-! ## Reading and copying -/

mutual

theorem fresh_identify (s : Supply) : ∀ t : Tree Term, s.Fresh (t.identify.run s).2 (t.identify.run s).1.leaves
  | leaf g a => by
    show s.Fresh _ (leaf g _).leaves
    rw [leaves_leaf]
    exact Occurrence.fresh_run s a
  | group g cs => by
    have hcs := fresh_visitEvery s cs
    show s.Fresh _ (group g _).leaves
    rw [leaves_group]
    exact hcs

theorem fresh_visitEvery (s : Supply) : ∀ cs : List (Tree Term),
    s.Fresh ((visitEvery Occurrence.fresh cs).run s).2 (((visitEvery Occurrence.fresh cs).run s).1.flatMap leaves)
  | [] => .nil (Nat.le_refl _)
  | c :: cs => by
    have hc := fresh_identify s c
    have hcs := fresh_visitEvery ((identify c).run s).2 cs
    show s.Fresh _ (List.flatMap leaves (_ :: _))
    rw [List.flatMap_cons]
    exact hc.append hcs

end

theorem moves_fresh (a : Term) : (monadLift (Occurrence.fresh a) : Drawing Occurrence).Moves Gone [] fun b => [b] :=
  Drawing.moves_lift fun s => .of_fresh (Occurrence.fresh_run s a)

theorem moves_readOccurrence (g : Grammar) (t : Text) : (Occurrence.read g t).Moves Gone [] fun b => [b] :=
  (Drawing.moves_ofResult fun _ _ => .refl []).bind moves_fresh

/-- Whatever is drawn, it is for the terms of the text; if the text has a fault it is lost. -/
theorem moves_readFrom (g : Grammar) (h : g.Valid) (base : Nat) (t : Text) :
    (readFrom (fun a => do return ofOccurrence (← Occurrence.fresh a)) g h base t : Drawing _).Moves Gone [] leaves := by
  rw [readFrom_eq]
  cases ht : Token.tokensFrom g h base t with
  | error e => exact Drawing.moves_throw e
  | ok tokens =>
    have hparts : (tokens.mapM (ofToldToken (fun a => do return ofOccurrence (← Occurrence.fresh a)) g h) :
        Drawing _).Moves Gone (tokens.flatMap fun _ => []) fun cs => cs.flatMap leaves := by
      refine Drawing.Moves.mapM fun token hm => ?_
      cases hk : token.kind with
      | leaf =>
        simp only [ofToldToken, hk]
        cases Term.readFrom g h token.start token.text with
        | error e => exact Drawing.moves_throw e
        | ok a => exact (moves_fresh a).bind fun b => Drawing.moves_pure (.of_perm (.of_eq (by simp [ofOccurrence])))
      | group =>
        have hlt := Token.length_lt_of_mem_tokensFrom ht hm hk
        simp only [ofToldToken, hk]
        exact moves_readFrom g h token.start token.text
    rw [List.flatMap_eq_nil_iff.2 fun _ _ => rfl] at hparts
    show (group g <$> _ : Drawing _).Moves Gone [] leaves
    rw [map_eq_pure_bind]
    exact hparts.bind fun cs => Drawing.moves_pure (.of_perm (.of_eq (leaves_group g cs)))
termination_by t.length

theorem moves_readFresh (g : Grammar) (t : Text) : (readFresh g t).Moves Gone [] leaves := by
  rw [readFresh]
  cases hf : g.fault? with
  | some fault =>
    rw [Grammar.reading_eq_throw hf]
    exact Drawing.moves_throw _
  | none =>
    rw [(Grammar.fault?_eq_none_iff.1 hf).reading_eq]
    exact moves_readFrom g _ 0 t

theorem moves_readLeafFresh (g : Grammar) (t : Text) : (readLeafFresh g t).Moves Gone [] leaves :=
  (moves_readOccurrence g t).bind fun a => Drawing.moves_pure (.of_perm (.of_eq (by simp [ofOccurrence])))

theorem forget_copy (s : Supply) (t : Tree Occurrence) : (t.copy.run s).1.forget = t.forget :=
  forget_identify s t.forget

theorem fresh_copy (s : Supply) (t : Tree Occurrence) : s.Fresh (t.copy.run s).2 (t.copy.run s).1.leaves :=
  fresh_identify s t.forget

theorem selection_toTree (selection : Selection) :
    selection.toTree = (group selection.tree.grammar selection.nodes).copy := by
  rw [copy, forget_group, identify, visitAll_group, List.mapM_map, Selection.toTree, bind_pure_comp]
  rfl

theorem leaves_members {α : Type} (t : Tree α) : t.members.flatMap leaves = t.leaves := by
  cases t <;> simp [members]

theorem leaves_regroup (g : Grammar) (t : Tree Occurrence) : (t.regroup g).leaves = t.leaves := by
  cases t <;> simp [regroup, ofOccurrence]

theorem leaves_withGrammar {α : Type} (g : Grammar) (t : Tree α) : (t.withGrammar g).leaves = t.leaves := by
  cases t <;> simp [withGrammar]

/-! ## Items -/

theorem leaves_flatten {α : Type} (parts : List (List (Tree α))) :
    parts.flatten.flatMap leaves = parts.flatMap fun ts => ts.flatMap leaves := by
  rw [List.flatten_eq_flatMap, List.flatMap_assoc]
  rfl

theorem moves_ofItem (g : Grammar) (item : Item) :
    (ofItem g item).Moves Gone item.occurrences fun ts => ts.flatMap leaves := by
  cases item with
  | text t =>
    refine (moves_readFresh g t).bind fun n => Drawing.moves_pure ?_
    exact .of_perm (.of_eq (leaves_members n))
  | tree t => exact Drawing.moves_pure (.of_perm (.of_eq (by simp [Item.occurrences])))

theorem moves_ofItems (g : Grammar) (items : List Item) :
    (ofItems g items).Moves Gone (items.flatMap Item.occurrences) fun ts => ts.flatMap leaves := by
  refine (Drawing.Moves.mapM fun item _ => moves_ofItem g item).bind fun parts => Drawing.moves_pure ?_
  exact .of_perm (.of_eq (leaves_flatten parts))

theorem moves_join (items : List Item) : (join items).Moves Gone (items.flatMap Item.occurrences) leaves := by
  have hmembers : ∀ item : Item, Drawing.Moves Gone item.occurrences (fun ts => ts.flatMap leaves) (match item with
      | .text t => do return (← readFresh (itemGrammar items) t).members
      | .tree t => return t.members) := by
    intro item
    cases item with
    | text t =>
      refine (moves_readFresh _ t).bind fun n => Drawing.moves_pure ?_
      exact .of_perm (.of_eq (leaves_members n))
    | tree t => exact Drawing.moves_pure (.of_perm (.of_eq (leaves_members t)))
  refine (Drawing.Moves.mapM fun item _ => hmembers item).bind fun parts => Drawing.moves_pure ?_
  rw [leaves_group, leaves_flatten]
  exact .refl _

theorem moves_detachFirst (t : Tree Occurrence) :
    (Drawing.ofResult t.detachFirst).Moves Gone t.leaves fun halves => halves.1.leaves ++ halves.2.leaves := by
  refine Drawing.moves_ofResult fun halves hs => ?_
  cases t with
  | leaf g a => contradiction
  | group g cs =>
    cases cs with
    | nil => contradiction
    | cons c cs =>
      cases hs
      rw [leaves_group, leaves_group, List.flatMap_cons]
      exact .refl _

/-! ## Changing the list of children -/

section
variable (items : List Item) (t : Tree Occurrence)

theorem moves_children {rest : List Occurrence} :
    (Drawing.ofResult t.children).Moves Gone (t.leaves ++ rest) fun cs => cs.flatMap leaves ++ rest := by
  refine Drawing.moves_ofResult fun cs hcs => ?_
  cases t with
  | leaf g a => contradiction
  | group g ds =>
    cases hcs
    rw [leaves_group]
    exact .refl _

/-- Wherever the items are put among the children, all are there. -/
theorem moves_insert {put : List (Tree Occurrence) → List (Tree Occurrence) → List (Tree Occurrence)}
    (hput : ∀ cs new, (put cs new).Perm (cs ++ new)) :
    Drawing.Moves Gone (t.leaves ++ items.flatMap Item.occurrences) leaves do
      let new ← ofItems t.grammar items
      let cs ← Drawing.ofResult t.children
      return group t.grammar (put cs new) := by
  have hitems : Drawing.Moves Gone _ _ _ := ((moves_ofItems t.grammar items).frame t.leaves).of_perm
    List.perm_append_comm fun _ => List.perm_append_comm
  refine hitems.bind fun new => (moves_children t).bind fun cs => Drawing.moves_pure (.of_perm ?_)
  rw [leaves_group, ← List.flatMap_append]
  exact (hput cs new).flatMap_right leaves

theorem moves_append : (t.append items).Moves Gone (t.leaves ++ items.flatMap Item.occurrences) leaves := by
  rw [append_eq]
  exact moves_insert items t fun _ _ => .refl _

theorem moves_prepend : (t.prepend items).Moves Gone (t.leaves ++ items.flatMap Item.occurrences) leaves := by
  rw [prepend_eq]
  exact moves_insert items t fun _ _ => List.perm_append_comm

end

theorem forall_of_isLeafWhere {α : Type} {test : α → Bool} {t : Tree α} (h : t.isLeafWhere test = true) :
    ∀ a ∈ t.leaves, test a = true := by
  cases t with
  | leaf g a => simpa [isLeafWhere, content?] using h
  | group g cs => contradiction

/-! ## Replacing a child -/

/-- Whether some child is a leaf with the identity. -/
def hasChild (target : Id) : Tree Occurrence → Bool
  | leaf .. => false
  | group _ cs => cs.any (isLeafOf target)

/-- What is gone when a child is replaced: the child, or what was to replace it. -/
def Replaced (target : Id) (items : List Item) (t : Tree Occurrence) (a : Occurrence) : Prop :=
  if t.hasChild target then a.id = target else a ∈ items.flatMap Item.occurrences

/-- The new nodes stand in the place of the child. -/
theorem sheds_replaced {items : List Item} {g h : Grammar} {a : Occurrence}
    {before after new : List (Tree Occurrence)} :
    Sheds (Replaced a.id items (group g (before ++ leaf h a :: after)))
      (new.flatMap leaves ++ (group g (before ++ leaf h a :: after)).leaves)
      (group g (before ++ new ++ after)).leaves := by
  have hchild : (group g (before ++ leaf h a :: after)).hasChild a.id = true := by
    simp [hasChild, isLeafOf, content?]
  refine ⟨[a], ?_, fun b hb => ?_⟩
  · simp only [leaves_group, List.flatMap_append, List.flatMap_cons, leaves_leaf]
    refine List.perm_iff_count.2 fun b => ?_
    simp only [List.count_append]
    omega
  · rw [Replaced, if_pos hchild, List.mem_singleton.1 hb]

theorem moves_replaceChild (target : Id) (items : List Item) (t : Tree Occurrence) :
    (t.replaceChild target items).Moves (Replaced target items t) (t.leaves ++ items.flatMap Item.occurrences)
      fun r => r.2.leaves := by
  intro s
  have hitems : Drawing.Moves (Replaced target items t) _ _ _ := moves_ofItems t.grammar items
  have hdrawn := hitems s
  -- without the child the items are dropped, with whatever was drawn for them
  have hkept (h : t.hasChild target = false) : Sheds (Replaced target items t)
      (t.leaves ++ items.flatMap Item.occurrences) t.leaves :=
    .of_forall fun a ha => by rwa [Replaced, if_neg (by simp [h])]
  split at hdrawn
  · next new s' hr =>
    cases t with
    | leaf g a =>
      rw [replaceChild_eq, Outcome.run_bind_ok hr]
      exact .of_sheds hdrawn.le (hkept rfl)
    | group g cs =>
      rcases run_replaceChild target hr with ⟨hno, hrun⟩ | ⟨before, h, a, after, rfl, rfl, -, hrun⟩
      · rw [hrun]
        refine .of_sheds hdrawn.le (hkept ?_)
        rw [hasChild, List.any_eq_false]
        simpa using hno
      · have hframe := (hdrawn.frame (group g (before ++ leaf h a :: after)).leaves).of_perm List.perm_append_comm
          (.refl _)
        rw [hrun]
        exact hframe.trans (.of_sheds (Nat.le_refl _) sheds_replaced)
  · next e s' hr =>
    rw [replaceChild_eq, Outcome.run_bind_error hr]
    exact hdrawn

/-! ## Removing leaves -/

/-- What is gone when leaves are removed: those that a selector takes. -/
def Removed (selectors : List Selector) (a : Occurrence) : Prop := ∃ s ∈ selectors, s.removes a = true

section
variable {α : Type} {test : α → Bool}

theorem sheds_dropFirst? {t u : Tree α} (h : dropFirst? test t = some u) :
    Sheds (fun a => test a = true) t.leaves u.leaves := by
  fun_induction dropFirst? test t generalizing u with
  | case1 => contradiction
  | case2 => contradiction
  | case3 g g' a cs hpass =>
    cases h
    rw [leaves_group, leaves_group, List.flatMap_cons, leaves_leaf]
    exact ⟨[a], List.perm_append_comm, by simpa using hpass⟩
  | case4 => contradiction
  | case5 g g' ds cs ih =>
    obtain ⟨c, hc, rfl⟩ := Option.map_eq_some_iff.1 h
    rw [leaves_group, leaves_group, List.flatMap_cons, List.flatMap_cons]
    exact (ih hc).append (.refl _)

theorem sheds_dropHead (c : Tree α) :
    Sheds (fun a => test a = true) c.leaves ((c.dropHead test).2.flatMap leaves) := by
  cases c with
  | leaf g a =>
    rw [dropHead]
    split
    · next hpass => exact ⟨[a], by simp, by simpa using hpass⟩
    · exact .of_perm (.of_eq (by simp))
  | group g cs =>
    rw [dropHead]
    split
    · next u hu =>
      have hsheds := sheds_dropFirst? hu
      simpa using hsheds
    · exact .of_perm (.of_eq (by simp))

theorem sheds_dropHeads (t : Tree α) : Sheds (fun a => test a = true) t.leaves (t.dropHeads test).2.leaves := by
  cases t with
  | leaf g a => exact .refl _
  | group g cs =>
    simp only [dropHeads, leaves_group, List.flatMap_assoc, List.flatMap_map]
    exact .flatMap fun c _ => sheds_dropHead c

theorem sheds_dropLeaves (t : Tree α) : Sheds (fun a => test a = true) t.leaves (t.dropLeaves test).leaves := by
  induction t using induction with
  | leaf g a =>
    rw [dropLeaves]
    exact .refl _
  | group g cs ih =>
    rw [dropLeaves, leaves_group, leaves_group, List.filterMap_eq_flatMap_toList, List.flatMap_assoc]
    refine .flatMap fun c hc => ?_
    split
    · next hleaf => exact ⟨c.leaves, by simp, forall_of_isLeafWhere hleaf⟩
    · simpa using ih c hc

theorem sheds_removeEach {f : Selector → Tree Occurrence → Nat × Tree Occurrence}
    (hf : ∀ s t, Sheds (fun a => s.removes a = true) t.leaves (f s t).2.leaves) (selectors : List Selector)
    (t : Tree Occurrence) : Sheds (Removed selectors) t.leaves (removeEach f selectors t).2.leaves := by
  induction selectors generalizing t with
  | nil => exact .refl _
  | cons s ss ih =>
    have hfirst : Sheds (Removed (s :: ss)) t.leaves (f s t).2.leaves :=
      (hf s t).mono fun a ha => ⟨s, by simp, ha⟩
    refine hfirst.trans ((ih (f s t).2).mono fun a ha => ?_)
    obtain ⟨s', hs', hrm⟩ := ha
    exact ⟨s', by simp [hs'], hrm⟩

theorem sheds_removeHeads (selectors : List Selector) (t : Tree Occurrence) :
    Sheds (Removed selectors) t.leaves (t.removeHeads selectors).2.leaves :=
  sheds_removeEach (fun _ t => sheds_dropHeads t) selectors t

theorem sheds_removeLeaves (selectors : List Selector) (t : Tree Occurrence) :
    Sheds (Removed selectors) t.leaves (t.removeLeaves selectors).2.leaves :=
  sheds_removeEach (fun _ t => sheds_dropLeaves t) selectors t

end

end Tree
end TermTree
