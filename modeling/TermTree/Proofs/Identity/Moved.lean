/-
Where occurrences come from. A computation that is handed some occurrences moves them: what it gives are those and
fresh ones, whose identities it drew on the way, without those that it leaves out (`Moved`). Nothing else can
happen to an occurrence, so none is copied together with its identity. The relation is the same for one draw and
for a long computation (`Moved.trans`), and each way to build or change a tree is shown to be an instance of it.
-/
import TermTree.Proofs.Tree.Drawing
import TermTree.Tree.Removal

namespace TermTree

/-! ## Leaving things out -/

section
variable {α : Type} {Gone Gone' : α → Prop} {before mid after before' after' rest : List α}

/-- What is left of `before` is `after`, in any order; what is gone is such that `Gone`. -/
def Sheds (Gone : α → Prop) (before after : List α) : Prop :=
  ∃ gone, (after ++ gone).Perm before ∧ ∀ a ∈ gone, Gone a

namespace Sheds

theorem of_perm (h : after.Perm before) : Sheds Gone before after :=
  ⟨[], by simpa using h, by simp⟩

theorem refl (as : List α) : Sheds Gone as as := of_perm (.refl as)

theorem trans (h : Sheds Gone before mid) (h' : Sheds Gone mid after) : Sheds Gone before after := by
  obtain ⟨gone, hp, hg⟩ := h
  obtain ⟨gone', hp', hg'⟩ := h'
  refine ⟨gone' ++ gone, ?_, fun a ha => (List.mem_append.1 ha).elim (hg' a) (hg a)⟩
  rw [← List.append_assoc]
  exact (hp'.append_right gone).trans hp

theorem append (h : Sheds Gone before after) (h' : Sheds Gone before' after') :
    Sheds Gone (before ++ before') (after ++ after') := by
  obtain ⟨gone, hp, hg⟩ := h
  obtain ⟨gone', hp', hg'⟩ := h'
  refine ⟨gone ++ gone', ?_, fun a ha => (List.mem_append.1 ha).elim (hg a) (hg' a)⟩
  refine .trans ?_ (hp.append hp')
  rw [List.append_assoc, List.append_assoc]
  exact .append_left after (List.perm_append_comm_assoc _ _ _)

theorem mono (hg : ∀ a, Gone a → Gone' a) (h : Sheds Gone before after) : Sheds Gone' before after := by
  obtain ⟨gone, hp, hgone⟩ := h
  exact ⟨gone, hp, fun a ha => hg a (hgone a ha)⟩

/-- Whatever is such that it may be gone can be left out. -/
theorem of_forall (h : ∀ a ∈ rest, Gone a) : Sheds Gone (before ++ rest) before := ⟨rest, .refl _, h⟩

theorem flatMap {β : Type} {f k : β → List α} {bs : List β} (h : ∀ b ∈ bs, Sheds Gone (f b) (k b)) :
    Sheds Gone (bs.flatMap f) (bs.flatMap k) := by
  induction bs with
  | nil => exact .refl []
  | cons b bs ih =>
    rw [List.flatMap_cons, List.flatMap_cons]
    exact (h b (by simp)).append (ih fun c hc => h c (by simp [hc]))

theorem mem (h : Sheds Gone before after) {a : α} (ha : a ∈ before) (hg : ¬ Gone a) : a ∈ after := by
  obtain ⟨gone, hp, hgone⟩ := h
  rcases List.mem_append.1 (hp.mem_iff.2 ha) with ha | ha
  · exact ha
  · exact absurd (hgone a ha) hg

theorem subset (h : Sheds Gone before after) : after ⊆ before := by
  obtain ⟨gone, hp, -⟩ := h
  exact fun a ha => hp.mem_iff.1 (List.mem_append_left gone ha)

theorem map {β : Type} (f : α → β) (h : Sheds Gone before after) :
    Sheds (fun _ => True) (before.map f) (after.map f) := by
  obtain ⟨gone, hp, -⟩ := h
  refine ⟨gone.map f, ?_, fun _ _ => trivial⟩
  rw [← List.map_append]
  exact hp.map f

theorem nodup (h : Sheds Gone before after) (hn : before.Nodup) : after.Nodup := by
  obtain ⟨gone, hp, -⟩ := h
  exact (List.nodup_append.1 (hp.nodup_iff.2 hn)).1

end Sheds
end

/-! ## Drawing identities -/

/-- The occurrences `new` have the identities of which each was drawn once between two supplies. -/
structure Supply.Fresh (s s' : Supply) (new : List Occurrence) : Prop where
  le : s.next ≤ s'.next
  nodup : (new.map (·.id)).Nodup
  drawn : ∀ a ∈ new, s.next ≤ a.id ∧ a.id < s'.next

namespace Supply.Fresh
variable {s s' s'' : Supply} {new new' : List Occurrence}

theorem nil (h : s.next ≤ s'.next) : Fresh s s' [] := ⟨h, .nil, by simp⟩

theorem append (h : Fresh s s' new) (h' : Fresh s' s'' new') : Fresh s s'' (new ++ new') := by
  refine ⟨Nat.le_trans h.le h'.le, ?_, fun a ha => ?_⟩
  · rw [List.map_append]
    refine List.nodup_append.2 ⟨h.nodup, h'.nodup, fun i hi j hj => ?_⟩
    obtain ⟨a, ha, rfl⟩ := List.mem_map.1 hi
    obtain ⟨b, hb, rfl⟩ := List.mem_map.1 hj
    exact Nat.ne_of_lt (Nat.lt_of_lt_of_le (h.drawn a ha).2 (h'.drawn b hb).1)
  · rcases List.mem_append.1 ha with ha | ha
    · exact ⟨(h.drawn a ha).1, Nat.lt_of_lt_of_le (h.drawn a ha).2 h'.le⟩
    · exact ⟨Nat.le_trans h.le (h'.drawn a ha).1, (h'.drawn a ha).2⟩

end Supply.Fresh

/-- From the occurrences `before` come `after`: they are those and fresh ones, and what is gone is such that `Gone`. -/
def Moved (Gone : Occurrence → Prop) (s s' : Supply) (before after : List Occurrence) : Prop :=
  ∃ new, s.Fresh s' new ∧ Sheds Gone (before ++ new) after

namespace Moved
variable {Gone : Occurrence → Prop} {s s' s'' : Supply} {before mid after rest : List Occurrence}

theorem of_sheds (hs : s.next ≤ s'.next) (h : Sheds Gone before after) : Moved Gone s s' before after :=
  ⟨[], .nil hs, by simpa using h⟩

theorem of_fresh (h : s.Fresh s' after) : Moved Gone s s' [] after := ⟨after, h, .refl _⟩

theorem le (h : Moved Gone s s' before after) : s.next ≤ s'.next := by
  obtain ⟨_, hfresh, -⟩ := h
  exact hfresh.le

theorem trans (h : Moved Gone s s' before mid) (h' : Moved Gone s' s'' mid after) : Moved Gone s s'' before after := by
  obtain ⟨new, hfresh, hsheds⟩ := h
  obtain ⟨new', hfresh', hsheds'⟩ := h'
  refine ⟨new ++ new', hfresh.append hfresh', .trans ?_ hsheds'⟩
  rw [← List.append_assoc]
  exact hsheds.append (.refl new')

theorem frame (h : Moved Gone s s' before after) (rest : List Occurrence) :
    Moved Gone s s' (before ++ rest) (after ++ rest) := by
  obtain ⟨new, hfresh, hsheds⟩ := h
  refine ⟨new, hfresh, .trans (.of_perm ?_) (hsheds.append (.refl rest))⟩
  rw [List.append_assoc, List.append_assoc]
  exact .append_left before List.perm_append_comm

theorem of_perm {before' after' : List Occurrence} (h : Moved Gone s s' before after) (hb : before.Perm before')
    (ha : after.Perm after') : Moved Gone s s' before' after' := by
  obtain ⟨new, hfresh, hsheds⟩ := h
  exact ⟨new, hfresh, .trans (.of_perm (hb.append_right new)) (hsheds.trans (.of_perm ha.symm))⟩

end Moved

/-! ## Computations -/

/-- Whatever the supply, the computation moves `before` to what its result holds. If it fails, identities that it
drew are lost. -/
def Drawing.Moves {α : Type} (Gone : Occurrence → Prop) (before : List Occurrence) (held : α → List Occurrence)
    (d : Drawing α) : Prop :=
  ∀ s, match d.run.run s with
    | (.ok a, s') => Moved Gone s s' before (held a)
    | (.error _, s') => s.next ≤ s'.next

namespace Drawing
variable {α β : Type} {Gone : Occurrence → Prop} {before rest : List Occurrence} {held : α → List Occurrence}
  {held' : β → List Occurrence}

theorem moves_pure {a : α} (h : Sheds Gone before (held a)) : (pure a : Drawing α).Moves Gone before held :=
  fun _ => .of_sheds (Nat.le_refl _) h

theorem moves_ofResult {r : Except Error α} (h : ∀ a, r = .ok a → Sheds Gone before (held a)) :
    (ofResult r).Moves Gone before held := by
  intro s
  rw [run_ofResult]
  cases r with
  | error e => exact Nat.le_refl _
  | ok a => exact .of_sheds (Nat.le_refl _) (h a rfl)

theorem moves_throw (e : Error) : (throw e : Drawing α).Moves Gone before held := fun _ => Nat.le_refl _

theorem moves_lift {d : StateM Supply α} (h : ∀ s, Moved Gone s (d.run s).2 before (held (d.run s).1)) :
    (monadLift d : Drawing α).Moves Gone before held := h

/-- One computation behind another, which is handed what the first one holds. -/
theorem Moves.bind {d : Drawing α} {f : α → Drawing β} (hd : d.Moves Gone before held)
    (hf : ∀ a, (f a).Moves Gone (held a) held') : (d >>= f).Moves Gone before held' := by
  intro s
  have hd := hd s
  split at hd
  · next a s' hr =>
    have hf := hf a s'
    rw [Outcome.run_bind_ok hr]
    split at hf
    · exact hd.trans hf
    · exact Nat.le_trans hd.le hf
  · next e s' hr =>
    rw [Outcome.run_bind_error hr]
    exact hd

theorem Moves.frame {d : Drawing α} (hd : d.Moves Gone before held) (rest : List Occurrence) :
    d.Moves Gone (before ++ rest) fun a => held a ++ rest := by
  intro s
  have hd := hd s
  split at hd
  · exact hd.frame rest
  · exact hd

theorem Moves.of_perm {d : Drawing α} {before' : List Occurrence} {held₁ : α → List Occurrence}
    (hd : d.Moves Gone before held) (hb : before.Perm before') (ha : ∀ a, (held a).Perm (held₁ a)) :
    d.Moves Gone before' held₁ := by
  intro s
  have hd := hd s
  split at hd
  · exact hd.of_perm hb (ha _)
  · exact hd

theorem Moves.mapM {γ : Type} {f : γ → Drawing β} {brought : γ → List Occurrence} {as : List γ}
    (hf : ∀ a ∈ as, (f a).Moves Gone (brought a) held') :
    (as.mapM f).Moves Gone (as.flatMap brought) fun bs => bs.flatMap held' := by
  induction as with
  | nil => exact moves_pure (.refl [])
  | cons a as ih =>
    rw [List.mapM_cons, List.flatMap_cons]
    have ih := ih fun b hb => hf b (List.mem_cons_of_mem a hb)
    refine ((hf a List.mem_cons_self).frame _).bind fun b => ?_
    refine ((ih.frame (held' b)).of_perm List.perm_append_comm fun _ => .refl _).bind fun bs => moves_pure ?_
    exact .of_perm List.perm_append_comm

end Drawing
end TermTree
