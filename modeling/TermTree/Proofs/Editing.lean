/-
Edits in place that are all or nothing. What an edit has changed when it fails stays changed, so that an edit which
fails leaves everything as it was is a fact about the order in which it does things: it asks all that may fail first,
and changes what is held only then. `AllOrNothing` says this, along with what the edit makes of what is held, and is
shown along the steps of an edit.
-/
import TermTree.Drawing

namespace TermTree.Editing
variable {σ α β : Type} {R R' : σ → σ → Prop}

/-- An edit that fails leaves what is held as it was; one that does not makes of it something that is so related to
it. -/
structure AllOrNothing (R : σ → σ → Prop) (e : Editing σ α) : Prop where
  ok : ∀ s a s', e.run.run s = (.ok a, s') → R s.value s'.value
  error : ∀ s fault s', e.run.run s = (.error fault, s') → s'.value = s.value

/-- An edit that does not fail. -/
def Sure (e : Editing σ α) : Prop := ∀ s, ∃ a s', e.run.run s = (.ok a, s')

namespace Sure

theorem pure (a : α) : Sure (Pure.pure a : Editing σ α) := fun s => ⟨a, s, rfl⟩

theorem held : Sure (Editing.held : Editing σ σ) := fun s => ⟨s.value, s, rfl⟩

theorem put (a : σ) : Sure (Editing.put a) := fun s => ⟨(), { s with value := a }, rfl⟩

theorem through {ρ : Type} (f : σ → StateM (Held ρ) σ) (start : ρ) : Sure (Editing.through f start) :=
  fun s => ⟨_, _, run_through f start s⟩

theorem drawing (d : StateM Supply α) : Sure (Editing.drawing (monadLift d) : Editing σ α) := fun _ => ⟨_, _, rfl⟩

theorem bind {e : Editing σ β} {f : β → Editing σ α} (he : Sure e) (hf : ∀ b, Sure (f b)) : Sure (e >>= f) := by
  intro s
  obtain ⟨b, s', hb⟩ := he s
  rw [Outcome.run_bind_ok hb]
  exact hf b s'

theorem allOrNothing {e : Editing σ α} (h : Sure e) : AllOrNothing (fun _ _ => True) e where
  ok _ _ _ _ := trivial
  error s fault s' hr := by
    obtain ⟨a, s'', ha⟩ := h s
    rw [ha] at hr
    cases hr

end Sure

namespace AllOrNothing

theorem mono {e : Editing σ α} (h : AllOrNothing R e) (hR : ∀ a b, R a b → R' a b) : AllOrNothing R' e :=
  ⟨fun s a s' hr => hR _ _ (h.ok s a s' hr), h.error⟩

theorem pure (hR : ∀ a, R a a) (x : α) : AllOrNothing R (Pure.pure x : Editing σ α) where
  ok s _ _ hr := by
    cases hr
    exact hR s.value
  error _ _ _ hr := by cases hr

theorem throw (fault : Error) : AllOrNothing R (MonadExcept.throw fault : Editing σ α) where
  ok _ _ _ hr := by cases hr
  error _ _ _ hr := by
    cases hr
    rfl

theorem put {b : σ} (hR : ∀ a, R a b) : AllOrNothing R (Editing.put b) where
  ok s _ _ hr := by
    cases hr
    exact hR s.value
  error _ _ _ hr := by cases hr

/-- What is held is asked for, and the rest is done with it. -/
theorem held_bind {f : σ → Editing σ α} (h : ∀ a, AllOrNothing (fun b c => b = a → R b c) (f a)) :
    AllOrNothing R (held >>= f) where
  ok s a s' hr := (h s.value).ok s a s' hr rfl
  error s fault s' hr := (h s.value).error s fault s' hr

/-- Something is asked that may fail, and the rest is done with the answer. -/
theorem bind_of_asks {e : Editing σ β} {f : β → Editing σ α} (he : ∀ s, (e.run.run s).2.value = s.value)
    (hf : ∀ s x s', e.run.run s = (.ok x, s') → AllOrNothing R (f x)) : AllOrNothing R (e >>= f) where
  ok s a s' hr := by
    obtain ⟨x, s₁, hx, hrest⟩ := Outcome.run_bind_eq_ok hr
    have hvalue := he s
    rw [hx] at hvalue
    rw [← hvalue]
    exact (hf s x s₁ hx).ok s₁ a s' hrest
  error s fault s' hr := by
    have hvalue := he s
    rcases Outcome.run_bind_eq_error hr with hx | ⟨x, s₁, hx, hrest⟩
    · rw [hx] at hvalue
      exact hvalue
    · rw [hx] at hvalue
      rw [← hvalue]
      exact (hf s x s₁ hx).error s₁ fault s' hrest

theorem drawing_bind {d : Drawing β} {f : β → Editing σ α}
    (hf : ∀ s x s', d.run.run s = (.ok x, s') → AllOrNothing R (f x)) : AllOrNothing R (drawing d >>= f) :=
  bind_of_asks (fun _ => rfl) fun s x s' hx => by
    rw [run_drawing] at hx
    obtain ⟨hresult, rfl⟩ := Prod.mk.inj hx
    exact hf s.supply x _ (Prod.ext hresult rfl)

theorem ofResult_bind {r : Except Error β} {f : β → Editing σ α} (hf : ∀ x, AllOrNothing R (f x)) :
    AllOrNothing R (ofResult r >>= f) :=
  bind_of_asks (fun _ => rfl) fun _ x _ _ => hf x

theorem bind_pure {e : Editing σ β} (h : AllOrNothing R e) (k : β → α) :
    AllOrNothing R (e >>= fun x => Pure.pure (k x)) where
  ok s a s' hr := by
    obtain ⟨x, s₁, hx, hpure⟩ := Outcome.run_bind_eq_ok hr
    cases hpure
    exact h.ok s x _ hx
  error s fault s' hr := by
    rcases Outcome.run_bind_eq_error hr with hx | ⟨x, s₁, -, hpure⟩
    · exact h.error s fault s' hx
    · cases hpure

end AllOrNothing
end TermTree.Editing
