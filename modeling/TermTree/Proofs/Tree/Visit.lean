/-
What a visit of all leaves does to each of them. The leaves are handed to the edit in their order, each at most once
(`noted_visitAll`). What a leaf carries afterwards is what the edit gave for it, in whatever state the edit was by then
(`get?_run_visitAll`); groups and grammars are as they were. So a leaf on which the edit does nothing stays, and an edit
of some of the leaves touches no others (`sameBut_run_visitAll`).
-/
import TermTree.Proofs.Tree.LeafPath
import TermTree.Proofs.Tree.Place
import TermTree.Tree.Comparison

namespace TermTree.Tree
variable {α β γ σ : Type}

/-- The edit `f` of those leaves that pass the test. -/
def onlyWhere {m : Type → Type} [Monad m] (test : α → Bool) (f : α → m α) (a : α) : m α :=
  if test a then f a else pure a

/-- The edit `f`, with a note of what it is handed. -/
def noting (f : α → StateM σ β) (a : α) : StateM (σ × List α) β := fun st =>
  let r := (f a).run st.1
  (r.1, r.2, st.2 ++ [a])

/-- `u` is the tree `t` with nothing changed but what leaves carry, and that only where `touched`. -/
structure SameBut (touched : Path → α → Prop) (t u : Tree α) : Prop where
  skeleton_eq : u.skeleton = t.skeleton
  get?_eq : ∀ p g a, t.get? p = some (leaf g a) → ¬ touched p a → u.get? p = some (leaf g a)

/-! ## What is handed on -/

/-- An edit of the leaves that pass a test is handed these, in their order. The test may see more of a leaf than the
edit, such as marks: the edit is handed what `proj` leaves of it. -/
theorem noted_visitAll {k : β → StateM (σ × List α) α} {test : β → Bool} {proj : β → α} {f : α → StateM σ α}
    (hk : ∀ b, k b = if test b then noting f (proj b) else pure (proj b)) (t : Tree β) (st : σ × List α) :
    ((t.visitAll k).run st).2.2 = st.2 ++ (t.leaves.filter test).map proj := by
  induction t using induction generalizing st with
  | leaf g b =>
    rw [visitAll, leaves_leaf, hk]
    by_cases hb : test b = true
    · rw [if_pos hb, List.filter_cons_of_pos hb]
      rfl
    · rw [if_neg hb, List.filter_cons_of_neg hb]
      exact (List.append_nil _).symm
  | group g cs ih =>
    rw [visitAll_group, leaves_group]
    show ((cs.mapM (visitAll k)).run st).2.2 = _
    induction cs generalizing st with
    | nil => exact (List.append_nil _).symm
    | cons c cs ihcs =>
      have hc := ih c List.mem_cons_self st
      have hcs := ihcs (fun d hd => ih d (List.mem_cons_of_mem c hd)) ((c.visitAll k).run st).2
      rw [List.mapM_cons, List.flatMap_cons, List.filter_append, List.map_append, ← List.append_assoc, ← hc]
      exact hcs

theorem noted_visitAll_onlyWhere (test : α → Bool) (f : α → StateM σ α) (t : Tree α) (st : σ × List α) :
    ((t.visitAll (onlyWhere test (noting f))).run st).2.2 = st.2 ++ t.leaves.filter test := by
  have hk : ∀ a, onlyWhere test (noting f) a = if test a then noting f a else pure a := fun _ => rfl
  rw [noted_visitAll hk, List.map_id']

/-! ## What becomes of a leaf -/

theorem getElem?_run_mapM {k : α → StateM σ β} {as : List α} {i : Nat} {a : α} (h : as[i]? = some a) (s : σ) :
    ∃ s', ((as.mapM k).run s).1[i]? = some ((k a).run s').1 := by
  induction as generalizing i s with
  | nil => contradiction
  | cons b as ih =>
    rw [List.mapM_cons]
    cases i with
    | zero =>
      cases h
      exact ⟨s, rfl⟩
    | succ i =>
      obtain ⟨s', hs'⟩ := ih (by simpa using h) ((k b).run s).2
      exact ⟨s', hs'⟩

/-- A leaf is where it was, and carries what the edit gave for it. -/
theorem get?_run_visitAll (k : α → StateM σ β) {t : Tree α} {p : Path} {g : Grammar} {a : α}
    (h : t.get? p = some (leaf g a)) (s : σ) : ∃ s', ((t.visitAll k).run s).1.get? p = some (leaf g ((k a).run s').1) := by
  induction p generalizing t s with
  | nil =>
    cases h
    exact ⟨s, rfl⟩
  | cons i p ih =>
    obtain ⟨k', cs, c, rfl, hc, hget⟩ := get?_cons h
    obtain ⟨s', hchild⟩ := getElem?_run_mapM (k := visitAll k) hc s
    obtain ⟨s'', hleaf⟩ := ih hget s'
    refine ⟨s'', ?_⟩
    rw [visitAll_group]
    show (group k' ((cs.mapM (visitAll k)).run s).1).get? (i :: p) = _
    rw [get?_group_cons, hchild]
    exact hleaf

theorem skeleton_run_visitAll (k : α → StateM σ β) (t : Tree α) (s : σ) :
    ((t.visitAll k).run s).1.skeleton = t.skeleton :=
  map_run_visitAll (fun _ _ => rfl) t s

theorem grammar_of_skeleton {t : Tree α} {u : Tree β} (h : u.skeleton = t.skeleton) : u.grammar = t.grammar := by
  cases t <;> cases u <;> simp_all [skeleton, grammar]

/-- Where the edit does nothing, the tree stays. The edit may see more of a leaf than the tree carries, such as marks:
`t` is what `proj` leaves of the tree that is visited. -/
theorem sameBut_run_visitAll {touched : Path → α → Prop} {proj : β → α} {k : β → StateM σ α} {t : Tree α} {u : Tree β}
    (hu : u.map proj = t) (hk : ∀ p g b, u.get? p = some (leaf g b) → ¬ touched p (proj b) → k b = pure (proj b))
    (s : σ) : SameBut touched t ((u.visitAll k).run s).1 where
  skeleton_eq := by rw [skeleton_run_visitAll, ← hu, skeleton_map]
  get?_eq p g a hget huntouched := by
    rw [← hu, get?_map] at hget
    obtain ⟨n, hn, hleaf⟩ := Option.map_eq_some_iff.1 hget
    cases n with
    | leaf h b =>
      rw [map_leaf] at hleaf
      cases hleaf
      obtain ⟨s', hs'⟩ := get?_run_visitAll k hn s
      rw [hs', hk p g b hn huntouched]
      rfl
    | group h cs =>
      rw [map_group] at hleaf
      contradiction

theorem sameBut_run_onlyWhere (test : α → Bool) (f : α → StateM σ α) (t : Tree α) (s : σ) :
    SameBut (fun _ a => test a = true) t ((t.visitAll (onlyWhere test f)).run s).1 :=
  sameBut_run_visitAll (map_id t) (fun _ _ _ _ ha => if_neg ha) s

end TermTree.Tree
