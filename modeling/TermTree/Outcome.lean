/-
Results that may be errors: when a mapped result is a value, when it is an error, and what it means to
run a computation on each member of a list. A computation with a state may fail as well, and keeps the state
that it failed in.
-/
namespace TermTree.Outcome

theorem map_eq_ok {ε α β : Type} {f : α → β} {x : Except ε α} {b : β} :
    x.map f = .ok b ↔ ∃ a, x = .ok a ∧ f a = b := by
  cases x <;> simp [Except.map]

theorem map_eq_error {ε α β : Type} {f : α → β} {x : Except ε α} {e : ε} :
    x.map f = .error e ↔ x = .error e := by
  cases x <;> simp [Except.map]

theorem mapError_ok {ε ε' α : Type} {f : ε → ε'} {a : α} :
    (Except.ok a : Except ε α).mapError f = .ok a := rfl

theorem mapError_error {ε ε' α : Type} {f : ε → ε'} {e : ε} :
    (Except.error e : Except ε α).mapError f = .error (f e) := rfl

theorem mapError_eq_ok {ε ε' α : Type} {f : ε → ε'} {x : Except ε α} {a : α} :
    x.mapError f = .ok a ↔ x = .ok a := by
  cases x <;> simp [mapError_ok, mapError_error]

theorem mapError_eq_error {ε ε' α : Type} {f : ε → ε'} {x : Except ε α} {e : ε'} :
    x.mapError f = .error e ↔ ∃ e', x = .error e' ∧ f e' = e := by
  cases x <;> simp [mapError_ok, mapError_error]

theorem map_ok {ε α β : Type} {f : α → β} {a : α} : (Except.ok a : Except ε α).map f = .ok (f a) := rfl

theorem map_error {ε α β : Type} {f : α → β} {e : ε} : (Except.error e : Except ε α).map f = .error e := rfl

theorem map_id {ε α : Type} (x : Except ε α) : x.map (fun a => a) = x := by
  cases x <;> rfl

theorem mapError_id {ε α : Type} (x : Except ε α) : x.mapError (fun e => e) = x := by
  cases x <;> rfl

theorem map_mapError {ε ε' α β : Type} (f : α → β) (k : ε → ε') (x : Except ε α) :
    (x.mapError k).map f = (x.map f).mapError k := by
  cases x <;> rfl

theorem bind_eq_ok {ε α β : Type} {x : Except ε α} {f : α → Except ε β} {b : β} :
    (x >>= f) = .ok b ↔ ∃ a, x = .ok a ∧ f a = .ok b := by
  cases x <;> simp [bind, Except.bind]

theorem map_map {ε α β γ : Type} (f : α → β) (k : β → γ) (x : Except ε α) :
    (x.map f).map k = x.map fun a => k (f a) := by
  cases x <;> rfl

/-! ## One result for each member of a list -/

theorem mapM_nil {ε α β : Type} (f : α → Except ε β) : [].mapM f = .ok [] := rfl

theorem mapM_cons {ε α β : Type} (f : α → Except ε β) (a : α) (as : List α) :
    (a :: as).mapM f =
      match f a with
      | .error e => .error e
      | .ok b => (as.mapM f).map (b :: ·) := by
  rw [List.mapM_cons]
  cases f a with
  | error e => rfl
  | ok b => cases as.mapM f <;> rfl

theorem mapM_eq_nil {ε α β : Type} {f : α → Except ε β} {as : List α} (h : as.mapM f = .ok []) : as = [] := by
  cases as with
  | nil => rfl
  | cons a as =>
    rw [mapM_cons] at h
    split at h
    · contradiction
    · obtain ⟨_, -, he⟩ := map_eq_ok.1 h
      contradiction

theorem mapM_eq_cons {ε α β : Type} {f : α → Except ε β} {as : List α} {b : β} {bs : List β}
    (h : as.mapM f = .ok (b :: bs)) : ∃ a as', as = a :: as' ∧ f a = .ok b ∧ as'.mapM f = .ok bs := by
  cases as with
  | nil =>
    rw [mapM_nil] at h
    cases h
  | cons a as =>
    rw [mapM_cons] at h
    split at h
    · contradiction
    · next hf =>
      obtain ⟨_, hbs, he⟩ := map_eq_ok.1 h
      cases he
      exact ⟨a, as, rfl, hf, hbs⟩

theorem exists_of_mem_mapM {ε α β : Type} {f : α → Except ε β} {as : List α} {bs : List β}
    (h : as.mapM f = .ok bs) {b : β} (hb : b ∈ bs) : ∃ a ∈ as, f a = .ok b := by
  induction as generalizing bs with
  | nil =>
    cases h
    contradiction
  | cons a as ih =>
    rw [mapM_cons] at h
    split at h
    · contradiction
    · next b' hb' =>
      obtain ⟨bs', hbs, rfl⟩ := map_eq_ok.1 h
      rcases List.mem_cons.1 hb with rfl | hb
      · exact ⟨a, List.mem_cons_self, hb'⟩
      · obtain ⟨a', ha', hf⟩ := ih hbs hb
        exact ⟨a', List.mem_cons_of_mem a ha', hf⟩

theorem exists_of_mapM_eq_error {ε α β : Type} {f : α → Except ε β} {as : List α} {e : ε}
    (h : as.mapM f = .error e) : ∃ a ∈ as, f a = .error e := by
  induction as with
  | nil => contradiction
  | cons a as ih =>
    rw [mapM_cons] at h
    split at h
    · next e' he =>
      cases h
      exact ⟨a, List.mem_cons_self, he⟩
    · obtain ⟨a', ha', hf⟩ := ih (map_eq_error.1 h)
      exact ⟨a', List.mem_cons_of_mem a ha', hf⟩

theorem mapM_append {ε α β : Type} {f : α → Except ε β} {as : List α} {bs : List β} (as' : List α)
    (h : as.mapM f = .ok bs) : (as ++ as').mapM f = (as'.mapM f).map (bs ++ ·) := by
  induction as generalizing bs with
  | nil =>
    cases h
    exact (map_id _).symm
  | cons a as ih =>
    rw [mapM_cons] at h
    rw [List.cons_append, mapM_cons]
    cases hf : f a with
    | error e =>
      rw [hf] at h
      contradiction
    | ok b =>
      rw [hf] at h
      obtain ⟨bs', hbs, rfl⟩ := map_eq_ok.1 h
      simp only [ih hbs, map_map, List.cons_append]

/-- Results that agree up to the error, member by member, agree as a whole. -/
theorem mapM_map_eq_mapError {ε ε' α β γ : Type} {f : β → Except ε' γ} {f' : α → Except ε γ} {s : α → β}
    {k : ε → ε'} {as : List α} (h : ∀ a ∈ as, f (s a) = (f' a).mapError k) :
    (as.map s).mapM f = (as.mapM f').mapError k := by
  induction as with
  | nil => rfl
  | cons a as ih =>
    have ih := ih fun b hb => h b (List.mem_cons_of_mem a hb)
    rw [List.map_cons, mapM_cons, mapM_cons, h a List.mem_cons_self, ih]
    cases f' a with
    | error e => rfl
    | ok b => exact map_mapError _ _ _

/-! ## Computations with a state -/

section
variable {ε σ α β : Type} {d : ExceptT ε (StateM σ) α} {f : α → ExceptT ε (StateM σ) β} {s s' : σ}

theorem run_pure (a : α) : (pure a : ExceptT ε (StateM σ) α).run.run s = (.ok a, s) := rfl

theorem run_bind_ok {a : α} (h : d.run.run s = (.ok a, s')) : (d >>= f).run.run s = (f a).run.run s' := by
  rw [ExceptT.run_bind, StateT.run_bind, h]
  rfl

theorem run_bind_error {e : ε} (h : d.run.run s = (.error e, s')) : (d >>= f).run.run s = (.error e, s') := by
  rw [ExceptT.run_bind, StateT.run_bind, h]
  rfl

theorem run_bind_eq_ok {b : β} (h : (d >>= f).run.run s = (.ok b, s')) :
    ∃ a s₁, d.run.run s = (.ok a, s₁) ∧ (f a).run.run s₁ = (.ok b, s') := by
  cases hd : d.run.run s with
  | mk r s₁ =>
    cases r with
    | error e =>
      rw [run_bind_error hd] at h
      cases h
    | ok a =>
      rw [run_bind_ok hd] at h
      exact ⟨a, s₁, rfl, h⟩

theorem run_bind_eq_error {e : ε} (h : (d >>= f).run.run s = (.error e, s')) :
    d.run.run s = (.error e, s') ∨ ∃ a s₁, d.run.run s = (.ok a, s₁) ∧ (f a).run.run s₁ = (.error e, s') := by
  cases hd : d.run.run s with
  | mk r s₁ =>
    cases r with
    | error e' =>
      rw [run_bind_error hd] at h
      cases h
      exact .inl rfl
    | ok a =>
      rw [run_bind_ok hd] at h
      exact .inr ⟨a, s₁, rfl, h⟩

theorem run_map_ok {k : α → β} {a : α} (h : d.run.run s = (.ok a, s')) : (k <$> d).run.run s = (.ok (k a), s') := by
  rw [map_eq_pure_bind, run_bind_ok h, run_pure]

theorem run_map_error {k : α → β} {e : ε} (h : d.run.run s = (.error e, s')) :
    (k <$> d).run.run s = (.error e, s') := by
  rw [map_eq_pure_bind, run_bind_error h]

end

end TermTree.Outcome
