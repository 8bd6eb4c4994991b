/-
Balanced brackets, by counting. `Nests o c depth e` says that reading `e` with `depth` brackets open closes
all of them, none before it was opened. Brackets are balanced when this holds with none open.
-/
import TermTree.Text

namespace TermTree.Text

/-- The closing brackets `c` of `e` close the opening brackets `o` of `e` and `depth` more in front of it. -/
structure Nests (o c : Char) (depth : Nat) (e : Text) : Prop where
  /-- No bracket is closed before it is opened. -/
  never_below : ∀ p, p <+: e → p.count c ≤ depth + p.count o
  /-- All brackets are closed. -/
  settled : e.count c = depth + e.count o

namespace Nests
variable {o c x : Char} {depth : Nat} {e f : Text}

theorem nil_iff : Nests o c depth [] ↔ depth = 0 := by
  constructor
  · intro h
    simpa using h.settled.symm
  · rintro rfl
    refine ⟨fun p hp => ?_, rfl⟩
    rw [List.prefix_nil.1 hp]
    simp

/-- Reading the first character changes the depth, and the rest is read at the new depth. -/
theorem cons_iff {depth' : Nat} (h : depth + [x].count o = depth' + [x].count c) :
    Nests o c depth (x :: e) ↔ Nests o c depth' e := by
  have hcount : ∀ (y : Char) (p : Text), (x :: p).count y = [x].count y + p.count y := by
    intro y p
    rw [← List.singleton_append, List.count_append]
  have hc := hcount c
  have ho := hcount o
  constructor
  · intro hn
    refine ⟨fun p hp => ?_, ?_⟩
    · have hle := hn.never_below (x :: p) ((List.prefix_cons_inj x).2 hp)
      have := hc p
      have := ho p
      omega
    · have heq := hn.settled
      have := hc e
      have := ho e
      omega
  · intro hn
    refine ⟨fun p hp => ?_, ?_⟩
    · rcases List.prefix_cons_iff.1 hp with rfl | ⟨p, rfl, hpe⟩
      · simp
      · have hle := hn.never_below p hpe
        have := hc p
        have := ho p
        omega
    · have heq := hn.settled
      have := hc e
      have := ho e
      omega

theorem cons_close (hoc : o ≠ c) : Nests o c (depth + 1) (c :: e) ↔ Nests o c depth e :=
  cons_iff (by simp [hoc.symm])

theorem cons_open (hoc : o ≠ c) : Nests o c depth (o :: e) ↔ Nests o c (depth + 1) e :=
  cons_iff (by simp [hoc])

theorem cons_other (ho : x ≠ o) (hc : x ≠ c) : Nests o c depth (x :: e) ↔ Nests o c depth e :=
  cons_iff (by simp [ho, hc])

theorem not_cons_close (hoc : o ≠ c) : ¬ Nests o c 0 (c :: e) := by
  intro h
  have hle := h.never_below [c] ⟨e, rfl⟩
  simp [hoc.symm] at hle

/-- Balanced text changes no depth. -/
theorem append (he : Nests o c 0 e) (hf : Nests o c depth f) : Nests o c depth (e ++ f) := by
  have hcount := he.settled
  refine ⟨fun p hp => ?_, ?_⟩
  · rcases List.prefix_or_prefix_of_prefix hp (List.prefix_append e f) with hp' | ⟨q, rfl⟩
    · have := he.never_below p hp'
      omega
    · have hq := hf.never_below q ((List.prefix_append_right_inj e).1 hp)
      rw [List.count_append, List.count_append]
      omega
  · have := hf.settled
    rw [List.count_append, List.count_append]
    omega

/-- From any place on, the rest closes the brackets that are open there. -/
theorem exists_of_append (h : Nests o c depth (e ++ f)) : ∃ depth', Nests o c depth' f := by
  have hle := h.never_below e (List.prefix_append e f)
  refine ⟨depth + e.count o - e.count c, fun p hp => ?_, ?_⟩
  · have hep := h.never_below (e ++ p) ((List.prefix_append_right_inj e).2 hp)
    rw [List.count_append, List.count_append] at hep
    omega
  · have heq := h.settled
    rw [List.count_append, List.count_append] at heq
    omega

theorem of_append_not_mem (h : Nests o c depth (e ++ f)) (ho : o ∉ f) (hc : c ∉ f) : Nests o c depth e := by
  refine ⟨fun p hp => h.never_below p (hp.trans (List.prefix_append e f)), ?_⟩
  have heq := h.settled
  rw [List.count_append, List.count_append, List.count_eq_zero_of_not_mem ho, List.count_eq_zero_of_not_mem hc] at heq
  exact heq

/-- The bracket that closes the group opened last, with `depth` more inside it, cuts the text in two. -/
theorem split (hoc : o ≠ c) (k depth : Nat) (h : Nests o c (k + depth + 1) e) :
    ∃ e₁ e₂, e = e₁ ++ c :: e₂ ∧ Nests o c depth e₁ ∧ Nests o c k e₂ := by
  induction e generalizing depth with
  | nil =>
    have := nil_iff.1 h
    omega
  | cons x e ih =>
    by_cases hxc : x = c
    · subst hxc
      have he := (cons_close hoc).1 h
      cases depth with
      | zero => exact ⟨[], e, rfl, nil_iff.2 rfl, he⟩
      | succ depth =>
        obtain ⟨e₁, e₂, rfl, h₁, h₂⟩ := ih depth he
        exact ⟨x :: e₁, e₂, rfl, (cons_close hoc).2 h₁, h₂⟩
    · by_cases hxo : x = o
      · subst hxo
        have he : Nests x c (k + (depth + 1) + 1) e := (cons_open hoc).1 h
        obtain ⟨e₁, e₂, rfl, h₁, h₂⟩ := ih (depth + 1) he
        exact ⟨x :: e₁, e₂, rfl, (cons_open hoc).2 h₁, h₂⟩
      · obtain ⟨e₁, e₂, rfl, h₁, h₂⟩ := ih depth ((cons_other hxo hxc).1 h)
        exact ⟨x :: e₁, e₂, rfl, (cons_other hxo hxc).2 h₁, h₂⟩

theorem of_not_mem (ho : o ∉ e) (hc : c ∉ e) : Nests o c 0 e := by
  refine ⟨fun p hp => ?_, ?_⟩
  · rw [List.count_eq_zero_of_not_mem fun hm => hc (hp.subset hm)]
    exact Nat.zero_le _
  · rw [List.count_eq_zero_of_not_mem ho, List.count_eq_zero_of_not_mem hc]

theorem enclose (hoc : o ≠ c) (he : Nests o c 0 e) : Nests o c 0 (o :: e ++ [c]) :=
  (cons_open hoc).2 (he.append ((cons_close hoc).2 (nil_iff.2 rfl)))

end Nests
end TermTree.Text
