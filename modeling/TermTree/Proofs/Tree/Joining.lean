/-
Joining items to a group. The first tree among the items decides the grammar that texts are read with, also those in
front of it. Each item brings its trees, a group only its children, and these stand one item after another
(`run_join`). So the leaves of the group are those of the items in the same order: those of a tree as they are, those
of a text under fresh identities. The two halves of a group, joined, are that group again (`join_conserves`).
-/
import TermTree.Proofs.Identity.Splicing
import TermTree.Proofs.Tree.Insertion
import TermTree.Proofs.Tree.LeafPath

namespace TermTree

section
variable {g : Grammar} {items : List Item} {e e' : Error}

/-- `g` is the grammar of the first tree among the items, or the default one where all of them are texts. -/
def LeadingGrammar (items : List Item) (g : Grammar) : Prop :=
  (∃ before t after, items = before ++ .tree t :: after ∧ (∀ item ∈ before, ∃ u, item = .text u) ∧ g = t.grammar) ∨
    (∀ item ∈ items, ∃ u, item = .text u) ∧ g = {}

/-- The trees that an item brings into a joined group. -/
inductive Brings (g : Grammar) : Item → List (Tree Occurrence) → Prop where
  /-- A text brings the children of what is read from it. -/
  | text {t : Text} {n : Tree Term} {cs : List (Tree Occurrence)} : Tree.read g t = .ok n →
      cs.map Tree.forget = n.members → Brings g (.text t) cs
  /-- A group brings its children; groups among these stay groups. -/
  | group (h : Grammar) (cs : List (Tree Occurrence)) : Brings g (.tree (.group h cs)) cs
  /-- A leaf brings itself. -/
  | leaf (h : Grammar) (a : Occurrence) : Brings g (.tree (.leaf h a)) [.leaf h a]

/-- The leaves of an item in their order: of a tree its own, of a text those that are read from it. -/
inductive HasLeaves (g : Grammar) : Item → List (Tree Occurrence) → Prop where
  | text {t : Text} {n : Tree Term} {ls : List (Tree Occurrence)} : Tree.read g t = .ok n →
      ls.map Tree.forget = n.leafNodes → HasLeaves g (.text t) ls
  | tree (t : Tree Occurrence) : HasLeaves g (.tree t) t.leafNodes

theorem LeadingGrammar.text (t : Text) (h : LeadingGrammar items g) : LeadingGrammar (.text t :: items) g := by
  rcases h with ⟨before, u, after, rfl, hbefore, hg⟩ | ⟨hall, hg⟩
  · exact .inl ⟨.text t :: before, u, after, rfl, List.forall_mem_cons.2 ⟨⟨t, rfl⟩, hbefore⟩, hg⟩
  · exact .inr ⟨List.forall_mem_cons.2 ⟨⟨t, rfl⟩, hall⟩, hg⟩

namespace Tree

theorem leadingGrammar_itemGrammar (items : List Item) : LeadingGrammar items (itemGrammar items) := by
  induction items with
  | nil => exact .inr ⟨by simp, rfl⟩
  | cons item items ih =>
    cases item with
    | text t => exact ih.text t
    | tree t => exact .inl ⟨[], t, items, rfl, by simp, rfl⟩

/-! ## The leaves of what an item brings -/

theorem leafNodes_map {α β : Type} (f : α → β) (t : Tree α) : (t.map f).leafNodes = t.leafNodes.map (map f) := by
  induction t using induction with
  | leaf g a => simp
  | group g cs ih =>
    rw [map_group, leafNodes_group, leafNodes_group, List.flatMap_map, List.map_flatMap, List.flatMap_def,
      List.flatMap_def, List.map_congr_left ih]

theorem leafNodes_members {α : Type} (t : Tree α) : t.members.flatMap leafNodes = t.leafNodes := by
  cases t <;> simp [members]

theorem leafNodes_flatten {α : Type} (parts : List (List (Tree α))) :
    parts.flatten.flatMap leafNodes = (parts.map fun cs => cs.flatMap leafNodes).flatten := by
  rw [List.flatten_eq_flatMap, List.flatMap_assoc, ← List.flatMap_def]
  rfl

theorem brings_members (t : Tree Occurrence) : Brings g (.tree t) t.members := by
  cases t with
  | leaf h a => exact .leaf h a
  | group h cs => exact .group h cs

theorem hasLeaves_of_brings {item : Item} {cs : List (Tree Occurrence)} (h : Brings g item cs) :
    HasLeaves g item (cs.flatMap leafNodes) := by
  cases h with
  | @text t n cs ht hcs =>
    refine .text ht ?_
    have hforget : ∀ c : Tree Occurrence, c.leafNodes.map forget = c.forget.leafNodes := fun c =>
      (leafNodes_map _ c).symm
    rw [List.map_flatMap, List.flatMap_congr fun c _ => hforget c, ← List.flatMap_map forget, hcs, leafNodes_members]
  | group h cs =>
    rw [← leafNodes_group h cs]
    exact .tree _
  | leaf h a =>
    rw [List.flatMap_singleton]
    exact .tree _

/-! ## The run -/

/-- The trees that are taken of an item. -/
def takenOf (g : Grammar) : Item → Drawing (List (Tree Occurrence))
  | .text t => ofItem g (.text t)
  | .tree t => return t.members

theorem join_eq (items : List Item) :
    join items = do
      let parts ← items.mapM (takenOf (itemGrammar items))
      return group (itemGrammar items) parts.flatten := rfl

/-- Joining fails as the first text among the items that cannot be read, or puts together what the items bring. -/
theorem run_join (items : List Item) (s : Supply) :
    (∃ e s', FirstFault (itemGrammar items) items e ∧ (join items).run.run s = (.error e, s')) ∨
    ∃ parts s', List.Forall₂ (Brings (itemGrammar items)) items parts ∧
      (join items).run.run s = (.ok (group (itemGrammar items) parts.flatten), s') := by
  have hall := run_mapM_items (takenOf (itemGrammar items)) (Brings (itemGrammar items)) (fun _ => rfl)
    (fun _ _ _ ht hcs => Brings.text ht hcs) (fun t s => ⟨t.members, s, brings_members t, rfl⟩) items s
  rw [join_eq]
  rcases hall with ⟨e, s', hfault, hrun⟩ | ⟨parts, s', hparts, hrun⟩
  · exact .inl ⟨e, s', hfault, Outcome.run_bind_error hrun⟩
  · exact .inr ⟨parts, s', hparts, Outcome.run_bind_ok hrun⟩

theorem readable_of_brings {parts : List (List (Tree Occurrence))} (h : List.Forall₂ (Brings g) items parts) :
    Readable g items := by
  induction h with
  | nil => simp [Readable]
  | cons hitem _ ih =>
    intro t ht
    rcases List.mem_cons.1 ht with rfl | ht
    · cases hitem with
      | text hread _ => exact ⟨_, hread⟩
    · exact ih t ht

theorem join_eq_error_iff {s : Supply} :
    ((join items).run.run s).1 = .error e ↔ FirstFault (itemGrammar items) items e := by
  rcases run_join items s with ⟨e', s', hfault, hrun⟩ | ⟨parts, s', hparts, hrun⟩
  · rw [hrun]
    constructor
    · intro he
      cases he
      exact hfault
    · intro h
      rw [hfault.unique h]
  · rw [hrun]
    constructor
    · intro he
      contradiction
    · intro h
      exact absurd (readable_of_brings hparts) h.not_readable

/-- The identities in the joined group are those of the items and those drawn for their texts. -/
theorem moved_of_join {u : Tree Occurrence} {s s' : Supply} (h : (join items).run.run s = (.ok u, s')) :
    Moved (fun _ => False) s s' (items.flatMap Item.occurrences) u.leaves := by
  have hmoves : (join items).Moves (fun _ => False) _ leaves := moves_join items
  have hmoved := hmoves s
  rw [h] at hmoved
  exact hmoved

theorem run_join_groups (g h : Grammar) (cs ds : List (Tree Occurrence)) (s : Supply) :
    (join [.tree (group g cs), .tree (group h ds)]).run.run s = (.ok (group g (cs ++ ds)), s) := by
  have hparts : [cs, ds].flatten = cs ++ ds := by simp
  rw [← hparts]
  rfl

/-- **Joining loses no leaf, and takes back a detached child.** Joining fails exactly when a text among the items cannot
be read with the grammar of the first tree, wherever that stands, and then with the error of the first such text.
Otherwise it gives a group with that grammar, whose children are what the items bring, one item after another. Its
leaves are those of the items in the same order, those of trees unchanged; nothing is lost, and what is new was drawn for
the texts, each identity once. A group whose first child was detached is joined again from the group of that child and
the group of the others. -/
theorem join_conserves (items : List Item) (s : Supply) :
    LeadingGrammar items (itemGrammar items) ∧
    (∀ e, ((join items).run.run s).1 = .error e ↔ FirstFault (itemGrammar items) items e) ∧
    (Readable (itemGrammar items) items →
      ∃ parts s', (join items).run.run s = (.ok (group (itemGrammar items) parts.flatten), s') ∧
        List.Forall₂ (Brings (itemGrammar items)) items parts ∧
        (∃ sequences, List.Forall₂ (HasLeaves (itemGrammar items)) items sequences ∧
          (group (itemGrammar items) parts.flatten).leafNodes = sequences.flatten) ∧
        Moved (fun _ => False) s s' (items.flatMap Item.occurrences) (group (itemGrammar items) parts.flatten).leaves) ∧
    ∀ g cs, cs ≠ [] → ∃ first rest, (group g cs).detachFirst = .ok (first, rest) ∧
      (join [.tree (group g [first]), .tree rest]).run.run s = (.ok (group g cs), s) := by
  refine ⟨leadingGrammar_itemGrammar items, fun _ => join_eq_error_iff, fun hread => ?_, fun g cs hne => ?_⟩
  · rcases run_join items s with ⟨e, _, hfault, -⟩ | ⟨parts, s', hparts, hrun⟩
    · exact absurd hread hfault.not_readable
    · refine ⟨parts, s', hrun, hparts, ⟨parts.map fun cs => cs.flatMap leafNodes, ?_, ?_⟩, moved_of_join hrun⟩
      · exact List.forall₂_map_right_iff.2 (hparts.imp fun _ _ => hasLeaves_of_brings)
      · rw [leafNodes_group, leafNodes_flatten]
  · obtain ⟨c, cs, rfl⟩ := List.exists_cons_of_ne_nil hne
    exact ⟨c, group g cs, rfl, run_join_groups g g [c] cs s⟩

/-- With the delimiter `:` of the leaf behind it, a text is read as a name and a value; a group in a group stays one.
With that delimiter `a.b` cannot be read. A group is joined again from its two halves. -/
theorem join_conserves_mixed :
    (∃ (parts : List (List (Tree Occurrence))) (s' : Supply),
      (join [.text ['a', ':', 'b'], .tree (leaf { delimiters := [[':']] } ⟨4, { name := ['c'] }⟩),
        .tree (group {} [group {} [leaf {} ⟨5, { name := ['d'] }⟩]])]).run.run ⟨6⟩ =
          (.ok (group { delimiters := [[':']] } parts.flatten), s') ∧
      Moved (fun _ => False) ⟨6⟩ s' [⟨4, { name := ['c'] }⟩, ⟨5, { name := ['d'] }⟩]
        (group { delimiters := [[':']] } parts.flatten).leaves) ∧
    FirstFault { delimiters := [[':']] }
      [.text ['a', '.', 'b'], .tree (leaf { delimiters := [[':']] } ⟨4, { name := ['c'] }⟩)]
      (.malformed (.missingDelimiter 1 ['a', '.', 'b'])) ∧
    ∃ first rest, (group {} [leaf { delimiters := [[':']] } ⟨4, { name := ['c'] }⟩, group {} []]).detachFirst =
        .ok (first, rest) ∧
      (join [.tree (group {} [first]), .tree rest]).run.run ⟨6⟩ =
        (.ok (group {} [leaf { delimiters := [[':']] } ⟨4, { name := ['c'] }⟩, group {} []]), ⟨6⟩) := by
  obtain ⟨-, -, hok, -⟩ := join_conserves [.text ['a', ':', 'b'],
    .tree (leaf { delimiters := [[':']] } ⟨4, { name := ['c'] }⟩),
    .tree (group {} [group {} [leaf {} ⟨5, { name := ['d'] }⟩]])] ⟨6⟩
  obtain ⟨-, herror, -, hhalves⟩ := join_conserves [.text ['a', '.', 'b'],
    .tree (leaf { delimiters := [[':']] } ⟨4, { name := ['c'] }⟩)] ⟨6⟩
  refine ⟨?_, (herror _).1 rfl, hhalves {} _ (by simp)⟩
  obtain ⟨parts, s', hrun, -, -, hmoved⟩ := hok fun t ht => by
    obtain rfl : t = ['a', ':', 'b'] := by simpa using ht
    exact ⟨_, rfl⟩
  refine ⟨parts, s', hrun, ?_⟩
  simpa [Item.occurrences] using hmoved

end Tree
end
end TermTree
