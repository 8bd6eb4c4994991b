/-
What a computation that draws identities comes to when these are left out. Reading a text with fresh
identities gives the tree that is read without them (`run_readFresh`), whatever the supply. Once the items are made,
a child is replaced where the first such leaf stands (`run_replaceChild`).
-/
import TermTree.Tree.Splice

namespace TermTree
open TermTree.Tree

/-- The result of a computation, from a supply, with the identities left out. -/
def Drawing.terms (d : Drawing (Tree Occurrence)) (supply : Supply) : Except Error (Tree Term) :=
  (d.run.run supply).1.map forget

namespace Drawing
variable {α : Type} {supply supply' : Supply}

theorem terms_of_run {d : Drawing (Tree Occurrence)} {a : Tree Occurrence}
    (h : d.run.run supply = (.ok a, supply')) : d.terms supply = .ok a.forget := by
  rw [terms, h]
  rfl

end Drawing

namespace Tree

@[simp] theorem forget_leaf (g : Grammar) (a : Occurrence) : (leaf g a).forget = leaf g a.term := map_leaf _ _ _

@[simp] theorem forget_group (g : Grammar) (cs : List (Tree Occurrence)) :
    (group g cs).forget = group g (cs.map forget) := map_group _ _ _

mutual

theorem forget_identify (supply : Supply) : ∀ t : Tree Term, ((identify t).run supply).1.forget = t
  | leaf g a => by
    show (leaf g _).forget = _
    rw [forget_leaf]
  | group g cs => by
    have hcs := map_forget_identify supply cs
    show (group g _).forget = _
    rw [forget_group]
    exact congrArg (group g) hcs

theorem map_forget_identify (supply : Supply) : ∀ cs : List (Tree Term),
    ((visitEvery Occurrence.fresh cs).run supply).1.map forget = cs
  | [] => rfl
  | c :: cs => by
    have hc := forget_identify supply c
    have hcs := map_forget_identify ((identify c).run supply).2 cs
    show forget _ :: List.map forget _ = c :: cs
    exact List.cons_eq_cons.2 ⟨hc, hcs⟩

end

/-! ## Reading -/

/-- The computation comes to the tree `r` with fresh identities, given from left to right; or it fails as `r` does, and
what it has drawn until then is lost. -/
structure Draws (d : Drawing (Tree Occurrence)) (r : Except Error (Tree Term)) : Prop where
  ok : ∀ n, r = .ok n → ∀ s, d.run.run s = (.ok (n.identify.run s).1, (n.identify.run s).2)
  error : ∀ e, r = .error e → ∀ s, ∃ s', d.run.run s = (.error e, s')

/-- The same of several trees. -/
structure DrawsAll (d : Drawing (List (Tree Occurrence))) (r : Except Error (List (Tree Term))) : Prop where
  ok : ∀ cs, r = .ok cs → ∀ s, d.run.run s =
    (.ok ((visitEvery Occurrence.fresh cs).run s).1, ((visitEvery Occurrence.fresh cs).run s).2)
  error : ∀ e, r = .error e → ∀ s, ∃ s', d.run.run s = (.error e, s')

theorem draws_throw (e : Error) : Draws (throw e) (.error e) where
  ok _ hr := by cases hr
  error _ hr s := by
    cases hr
    exact ⟨s, rfl⟩

theorem drawsAll_mapM {γ : Type} {f : γ → Drawing (Tree Occurrence)} {f' : γ → Except Error (Tree Term)} {as : List γ}
    (h : ∀ a ∈ as, Draws (f a) (f' a)) : DrawsAll (as.mapM f) (as.mapM f') := by
  induction as with
  | nil => exact ⟨fun _ hr s => by cases hr; rfl, fun _ hr => by cases hr⟩
  | cons a as ih =>
    have ha := h a List.mem_cons_self
    have has := ih fun b hb => h b (List.mem_cons_of_mem a hb)
    rw [Outcome.mapM_cons, List.mapM_cons]
    refine ⟨fun cs hr s => ?_, fun e hr s => ?_⟩
    · split at hr
      · contradiction
      · next n hn =>
        obtain ⟨cs', hcs, rfl⟩ := Outcome.map_eq_ok.1 hr
        rw [Outcome.run_bind_ok (ha.ok n hn s), Outcome.run_bind_ok (has.ok cs' hcs _)]
        rfl
    · split at hr
      · next e' hn =>
        cases hr
        obtain ⟨s', hrun⟩ := ha.error _ hn s
        exact ⟨s', Outcome.run_bind_error hrun⟩
      · next n hn =>
        obtain ⟨s', hrun⟩ := has.error e (Outcome.map_eq_error.1 hr) (n.identify.run s).2
        refine ⟨s', ?_⟩
        rw [Outcome.run_bind_ok (ha.ok n hn s), Outcome.run_bind_error hrun]

theorem DrawsAll.group {d : Drawing (List (Tree Occurrence))} {r : Except Error (List (Tree Term))}
    (h : DrawsAll d r) (g : Grammar) : Draws (Tree.group g <$> d) (r.map (Tree.group g)) where
  ok _ hr s := by
    obtain ⟨cs, hcs, rfl⟩ := Outcome.map_eq_ok.1 hr
    exact Outcome.run_map_ok (h.ok cs hcs s)
  error e hr s := by
    obtain ⟨s', hrun⟩ := h.error e (Outcome.map_eq_error.1 hr) s
    exact ⟨s', Outcome.run_map_error hrun⟩

theorem draws_readFrom (g : Grammar) (h : g.Valid) (base : Nat) (t : Text) :
    Draws (readFrom (fun a => do return ofOccurrence (← Occurrence.fresh a)) g h base t)
      (readFrom (fun a => pure (ofTerm a)) g h base t) := by
  rw [readFrom_eq, readFrom_eq]
  cases ht : Token.tokensFrom g h base t with
  | error e => exact draws_throw e
  | ok tokens =>
    refine (drawsAll_mapM fun token hm => ?_).group g
    cases hk : token.kind with
    | leaf =>
      simp only [ofToldToken, hk]
      cases Term.readFrom g h token.start token.text with
      | error e => exact draws_throw e
      | ok a => exact ⟨fun _ hr s => by cases hr; rfl, fun _ hr => by cases hr⟩
    | group =>
      have hlt := Token.length_lt_of_mem_tokensFrom ht hm hk
      simp only [ofToldToken, hk]
      exact draws_readFrom g h token.start token.text
termination_by t.length

theorem draws_readFresh (g : Grammar) (t : Text) : Draws (readFresh g t) (read g t) := by
  rw [readFresh, read]
  cases hf : g.fault? with
  | some fault =>
    rw [Grammar.reading_eq_throw hf, Grammar.reading_eq_throw hf]
    exact draws_throw _
  | none =>
    have hv := Grammar.fault?_eq_none_iff.1 hf
    rw [hv.reading_eq, hv.reading_eq]
    exact draws_readFrom g hv 0 t

/-- A text reads the same with fresh identities as without. -/
theorem run_readFresh {g : Grammar} {t : Text} {n : Tree Term} (h : read g t = .ok n) (supply : Supply) :
    ∃ a supply', (readFresh g t).run.run supply = (.ok a, supply') ∧ a.forget = n :=
  ⟨_, _, (draws_readFresh g t).ok n h supply, forget_identify supply n⟩

/-! ## Replacing a child -/

theorem isLeafOf_eq_true {target : Id} {c : Tree Occurrence} :
    isLeafOf target c = true ↔ ∃ h a, c = leaf h a ∧ a.id = target := by
  cases c with
  | leaf h a =>
    have hid : isLeafOf target (leaf h a) = (a.id == target) := rfl
    rw [hid, beq_iff_eq]
    constructor
    · exact fun ha => ⟨h, a, rfl, ha⟩
    · intro ⟨_, _, heq, ha⟩
      cases heq
      exact ha
  | group g cs => simp [isLeafOf, content?]

/-- The child that is replaced is the first one that is a leaf with the identity. -/
theorem run_replaceChild (target : Id) {items : List Item} {g : Grammar} {cs new : List (Tree Occurrence)}
    {supply supply' : Supply} (hitems : (ofItems (group g cs).grammar items).run.run supply = (.ok new, supply')) :
    ((∀ c ∈ cs, isLeafOf target c = false) ∧
      ((group g cs).replaceChild target items).run.run supply = (.ok (false, group g cs), supply')) ∨
    ∃ before h a after, cs = before ++ leaf h a :: after ∧ a.id = target ∧
      (∀ c ∈ before, isLeafOf target c = false) ∧
      ((group g cs).replaceChild target items).run.run supply =
        (.ok (true, group g (before ++ new ++ after)), supply') := by
  rw [replaceChild_eq, Outcome.run_bind_ok hitems]
  cases hi : cs.findIdx? (isLeafOf target) with
  | none => exact .inl ⟨by simpa using hi, by simp only [hi]; rfl⟩
  | some i =>
    obtain ⟨hlt, hleaf, hfirst⟩ := List.findIdx?_eq_some_iff_getElem.1 hi
    obtain ⟨h, a, hc, ha⟩ := isLeafOf_eq_true.1 hleaf
    refine .inr ⟨cs.take i, h, a, cs.drop (i + 1), ?_, ha, fun c hmem => ?_, by simp only [hi]; rfl⟩
    · rw [← hc, ← List.drop_eq_getElem_cons hlt, List.take_append_drop]
    · obtain ⟨j, hj, rfl⟩ := List.getElem_of_mem hmem
      rw [List.length_take] at hj
      rw [List.getElem_take]
      simpa using hfirst j (by omega)

end Tree
end TermTree
