/-
Supplies only grow. An edit of terms may itself read terms, and so draw identities, but it cannot give one back
(`Grows`). Hence neither can an edit of some leaves of a tree, whichever they are (`grows_visit`,
`grows_visit_selection`).
-/
import TermTree.Drawing
import TermTree.Tree.Selection
import TermTree.Workspace.Step

namespace TermTree
variable {σ α β : Type}

/-- Whatever the computation does, the supply is not smaller afterwards. -/
def Grows (d : StateM (Held σ) α) : Prop := ∀ s, s.supply.next ≤ (d.run s).2.supply.next

namespace Grows

theorem pure (a : α) : Grows (Pure.pure a : StateM (Held σ) α) := fun _ => Nat.le_refl _

theorem bind {d : StateM (Held σ) β} {f : β → StateM (Held σ) α} (hd : Grows d) (hf : ∀ b, Grows (f b)) :
    Grows (d >>= f) := fun s => Nat.le_trans (hd s) (hf _ _)

theorem map {d : StateM (Held σ) β} (hd : Grows d) (k : β → α) : Grows (k <$> d) := hd

theorem mapM {f : β → StateM (Held σ) α} {bs : List β} (hf : ∀ b ∈ bs, Grows (f b)) : Grows (bs.mapM f) := by
  induction bs with
  | nil => exact .pure []
  | cons b bs ih =>
    rw [List.mapM_cons]
    exact (hf b List.mem_cons_self).bind fun _ => (ih fun c hc => hf c (List.mem_cons_of_mem b hc)).bind fun _ => .pure _

theorem foldlM {f : α → β → StateM (Held σ) α} (hf : ∀ a b, Grows (f a b)) (bs : List β) (a : α) :
    Grows (bs.foldlM f a) := by
  induction bs generalizing a with
  | nil => exact .pure a
  | cons b bs ih => exact (hf a b).bind ih

theorem except_bind {e : Editing σ β} {f : β → Editing σ α} (he : Grows e.run) (hf : ∀ b, Grows (f b).run) :
    Grows (e >>= f).run := by
  intro s
  have hs := he s
  cases hr : e.run.run s with
  | mk r s' =>
    rw [hr] at hs
    cases r with
    | error fault =>
      rw [Outcome.run_bind_error hr]
      exact hs
    | ok b =>
      rw [Outcome.run_bind_ok hr]
      exact Nat.le_trans hs (hf b s')

end Grows

/-! ## Edits of leaves -/

namespace Tree
variable {f : Occurrence → StateM (Held σ) Occurrence}

theorem grows_visitLeaf (hf : ∀ a, Grows (f a)) (t : Tree Occurrence) : Grows (t.visitLeaf f) := by
  cases t with
  | leaf g a => exact (hf a).map _
  | group g cs => exact .pure _

theorem grows_visitAll (hf : ∀ a, Grows (f a)) (t : Tree Occurrence) : Grows (t.visitAll f) := by
  induction t using induction with
  | leaf g a => exact (hf a).map _
  | group g cs ih =>
    rw [visitAll_group]
    exact (Grows.mapM ih).map _

theorem grows_visitFirst (hf : ∀ a, Grows (f a)) (t : Tree Occurrence) : Grows (t.visitFirst f) := by
  induction t using induction with
  | leaf g a => exact (hf a).map _
  | group g cs ih =>
    cases cs with
    | nil => exact .pure _
    | cons c cs => exact (ih c List.mem_cons_self).map _

theorem grows_visit (hf : ∀ a, Grows (f a)) (which : Visiting) (t : Tree Occurrence) : Grows (which.run _ f t) := by
  cases which with
  | all => exact grows_visitAll hf t
  | first => exact grows_visitFirst hf t
  | heads =>
    cases t with
    | leaf g a => exact (hf a).map _
    | group g cs => exact (Grows.mapM fun c _ => grows_visitFirst hf c).map _
  | rest =>
    cases t with
    | leaf g a => exact .pure _
    | group g cs =>
      cases cs with
      | nil => exact .pure _
      | cons c cs => exact (Grows.mapM fun c _ => grows_visitFirst hf c).map _

theorem grows_modifyAt {k : Tree Occurrence → StateM (Held σ) (Tree Occurrence)} (hk : ∀ c, Grows (k c)) (p : Path)
    (t : Tree Occurrence) : Grows (t.modifyAt k p) := by
  induction p generalizing t with
  | nil => exact hk t
  | cons i p ih =>
    cases t with
    | leaf g a => exact .pure _
    | group g cs =>
      rw [modifyAt]
      split
      · exact .pure _
      · next c hc => exact (ih c).map _

theorem grows_visit_selection (hf : ∀ a, Grows (f a)) (selection : Selection) : Grows (selection.visit f) :=
  (Grows.foldlM (fun t p => grows_modifyAt (grows_visitLeaf hf) p t) selection.paths selection.tree).bind
    fun _ => .pure _

end Tree

/-- An edit of terms, which may have a state of its own and draw identities. -/
structure TermEdit (σ : Type) where
  run : Occurrence → StateM (Held σ) Term
  grows : ∀ a, Grows (run a)

namespace TermEdit

/-- The edit of an occurrence, which keeps its identity. -/
def edit (f : TermEdit σ) : Occurrence → StateM (Held σ) Occurrence := Occurrence.edit f.run

theorem grows_edit (f : TermEdit σ) (a : Occurrence) : Grows (f.edit a) := (f.grows a).bind fun _ => .pure _

end TermEdit

/-- A computation that holds a state of its own, which begins as `start` and is lost. -/
def Drawing.holding (d : StateM (Held σ) α) (start : σ) : Drawing α := do
  let (a, s) := d.run ⟨start, ← get⟩
  set s.supply
  return a

end TermTree
