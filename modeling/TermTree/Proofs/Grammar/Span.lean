/-
Verbatim spans of a text. A span is the same whatever follows it (`quotedAt_append_of_span`,
`quotedAt_quote_append`), and where a text cannot continue an opening quote none arises at the seam in
front of it (`quotedAt_append_of_absent`).

`Exposes g t e` says that all spans of `t` are closed and that `e` is what stands outside them: the
characters in which readers look for separators and brackets.
-/
import TermTree.Grammar
import TermTree.Proofs.Text.Seam

namespace TermTree.Grammar

theorem quotedAt_eq_span {g : Grammar} {t body rest : Text} :
    g.quotedAt t = .span body rest ↔
      ∃ inside, Text.after? g.quoteOpen t = some inside ∧ Text.breakOn? g.quoteClose inside = some (body, rest) := by
  rw [quotedAt]
  split
  · next hno => simp [hno]
  · next inside hin =>
    split
    · next hbr => simp [hin, hbr]
    · next hbr => simp [hin, hbr]

/-- A verbatim span ends at the first closing quote behind its opening quote. -/
theorem quotedAt_eq_span_iff {g : Grammar} {t body rest : Text} :
    g.quotedAt t = .span body rest ↔ t = g.quote body ++ rest ∧ Text.FirstAtEnd g.quoteClose body := by
  constructor
  · intro h
    obtain ⟨inside, -, hbr⟩ := quotedAt_eq_span.1 h
    exact ⟨eq_append_of_quotedAt h, (Text.breakOn?_eq_some.1 hbr).2⟩
  · rintro ⟨rfl, h⟩
    refine quotedAt_eq_span.2 ⟨body ++ g.quoteClose ++ rest, ?_, Text.breakOn?_eq_some.2 ⟨rfl, h⟩⟩
    rw [quote, List.append_assoc, List.append_assoc, List.append_assoc]
    exact Text.after?_append _ _

theorem prefix_of_quotedAt_unclosed {g : Grammar} {t : Text} (h : g.quotedAt t = .unclosed) : g.quoteOpen <+: t := by
  cases hin : Text.after? g.quoteOpen t with
  | none =>
    rw [quotedAt, hin] at h
    contradiction
  | some inside => exact ⟨inside, (Text.eq_append_of_after? hin).symm⟩

/-- Where an opening quote is one character, no span begins in front of any other. -/
theorem quotedAt_eq_absent_iff_head? {g : Grammar} {q : Char} (hq : g.quoteOpen = [q]) {t : Text} :
    g.quotedAt t = .absent ↔ t.head? ≠ some q := by
  rw [quotedAt_eq_absent, hq, List.singleton_prefix_iff_head?_eq_some]

theorem quotedAt_append_of_span {g : Grammar} {t body rest : Text} (u : Text) (h : g.quotedAt t = .span body rest) :
    g.quotedAt (t ++ u) = .span body (rest ++ u) := by
  obtain ⟨inside, hin, hbr⟩ := quotedAt_eq_span.1 h
  exact quotedAt_eq_span.2
    ⟨inside ++ u, Text.after?_append_of_eq_some u hin, Text.breakOn?_append_of_eq_some u hbr⟩

theorem quotedAt_quote_append {g : Grammar} {body rest : Text} (u : Text)
    (h : g.quotedAt (g.quote body ++ rest) = .span body rest) : g.quotedAt (g.quote body ++ u) = .span body u :=
  quotedAt_eq_span_iff.2 ⟨rfl, (quotedAt_eq_span_iff.1 h).2⟩

/-- No span arises at a seam behind which an opening quote cannot go on. -/
theorem quotedAt_append_of_absent {g : Grammar} {t u : Text} (hu : Text.ClearOf g.quoteOpen u)
    (h : g.quotedAt t = .absent) : g.quotedAt (t ++ u) = .absent := by
  rw [quotedAt_eq_absent, ← Text.after?_eq_none] at h ⊢
  rw [Text.after?_append_of_clearOf hu, h]
  rfl

theorem quotedAt_of_append_absent {g : Grammar} {t u : Text} (h : g.quotedAt (t ++ u) = .absent) :
    g.quotedAt t = .absent := by
  rw [quotedAt_eq_absent] at h ⊢
  exact fun hp => h (hp.trans (List.prefix_append t u))

theorem quotedAt_of_clearOf {g : Grammar} (h : g.Valid) {t : Text} (ht : Text.ClearOf g.quoteOpen t) :
    g.quotedAt t = .absent :=
  quotedAt_eq_absent.2 (ht.not_prefix h.quoteOpen_ne)

/-! ## What stands outside the spans -/

/-- All verbatim spans of the first text are closed, and the second text is what stands outside them. -/
inductive Exposes (g : Grammar) : Text → Text → Prop where
  | nil : Exposes g [] []
  | span {body rest e : Text} : g.quotedAt (g.quote body ++ rest) = .span body rest → Exposes g rest e →
      Exposes g (g.quote body ++ rest) e
  | char {c : Char} {t e : Text} : g.quotedAt (c :: t) = .absent → Exposes g t e → Exposes g (c :: t) (c :: e)

theorem Exposes.of_span {g : Grammar} (hv : g.Valid) {t body rest e : Text} (hq : g.quotedAt t = .span body rest)
    (h : Exposes g t e) : Exposes g rest e := by
  cases h with
  | nil => exact absurd (hv.length_lt_of_quotedAt hq) (Nat.not_lt_zero _)
  | span hspan hrest =>
    rw [hspan] at hq
    cases hq
    exact hrest
  | char habs =>
    rw [habs] at hq
    contradiction

/-- What stands outside the spans of a text is one text. -/
theorem Exposes.unique {g : Grammar} (hv : g.Valid) {t e f : Text} (he : Exposes g t e) (hf : Exposes g t f) :
    e = f := by
  induction he generalizing f with
  | nil =>
    generalize ht : ([] : Text) = t at hf
    cases hf with
    | nil => rfl
    | span => simp [quote, hv.quoteOpen_ne] at ht
    | char => contradiction
  | span hspan _ ih => exact ih (hf.of_span hv hspan)
  | @char c t e habs _ ih =>
    generalize ht : c :: t = s at hf
    cases hf with
    | nil => contradiction
    | span hspan =>
      rw [← ht, habs] at hspan
      contradiction
    | char _ hf =>
      obtain ⟨rfl, rfl⟩ := List.cons.inj ht
      rw [ih hf]

/-- Where an opening quote is one character, no span reaches over the seam of two texts whose spans are
closed. -/
theorem Exposes.append {g : Grammar} (hq : g.quoteOpen.length = 1) {s t e f : Text} (hs : Exposes g s e)
    (ht : Exposes g t f) : Exposes g (s ++ t) (e ++ f) := by
  induction hs with
  | nil => exact ht
  | span hspan _ ih =>
    rw [List.append_assoc]
    exact .span (quotedAt_quote_append _ hspan) ih
  | @char c s e habs _ ih =>
    refine .char ?_ ih
    rw [quotedAt_eq_absent, ← Text.after?_eq_none] at habs ⊢
    have hl : g.quoteOpen.length ≤ (c :: s).length := by simp [hq]
    exact Text.after?_append_eq_none t habs hl

theorem Exposes.of_not_mem {g : Grammar} {q : Char} (hq : g.quoteOpen = [q]) {t : Text} (ht : q ∉ t) :
    Exposes g t t := by
  induction t with
  | nil => exact .nil
  | cons c t ih =>
    simp only [List.mem_cons, not_or] at ht
    refine .char ?_ (ih ht.2)
    rw [quotedAt_eq_absent_iff_head? hq]
    simpa using Ne.symm ht.1

/-- A character that stands outside the spans cuts the text there. -/
theorem Exposes.split {g : Grammar} {c : Char} {t e₁ e₂ : Text} (h : Exposes g t (e₁ ++ c :: e₂)) :
    ∃ t₁ t₂, t = t₁ ++ c :: t₂ ∧ Exposes g t₁ e₁ ∧ Exposes g t₂ e₂ := by
  generalize he : e₁ ++ c :: e₂ = e at h
  induction h generalizing e₁ with
  | nil => simp at he
  | @span body rest e hspan _ ih =>
    obtain ⟨t₁, t₂, rfl, h₁, h₂⟩ := ih he
    exact ⟨g.quote body ++ t₁, t₂, by rw [List.append_assoc], .span (quotedAt_quote_append t₁ hspan) h₁, h₂⟩
  | @char x t e habs hte ih =>
    cases e₁ with
    | nil =>
      obtain ⟨rfl, rfl⟩ := List.cons.inj he
      exact ⟨[], t, rfl, .nil, hte⟩
    | cons y e₁ =>
      obtain ⟨rfl, hrest⟩ := List.cons.inj he
      obtain ⟨t₁, t₂, rfl, h₁, h₂⟩ := ih hrest
      rw [← List.cons_append] at habs
      exact ⟨y :: t₁, t₂, rfl, .char (quotedAt_of_append_absent habs) h₁, h₂⟩

theorem Exposes.of_cons {g : Grammar} {q c : Char} (hq : g.quoteOpen = [q]) (hc : c ≠ q) {t e : Text}
    (h : Exposes g (c :: t) e) : ∃ f, e = c :: f ∧ Exposes g t f := by
  generalize ht : c :: t = s at h
  cases h with
  | nil => contradiction
  | span =>
    rw [quote, hq] at ht
    exact absurd (List.cons.inj ht).1 hc
  | char _ h =>
    obtain ⟨rfl, rfl⟩ := List.cons.inj ht
    exact ⟨_, rfl, h⟩

theorem Exposes.subset {g : Grammar} {t e : Text} (h : Exposes g t e) : e ⊆ t := by
  induction h with
  | nil => exact List.Subset.refl _
  | span _ _ ih => exact List.Subset.trans ih (List.subset_append_right _ _)
  | char _ _ ih => exact List.cons_subset_cons _ ih

/-- Characters of a class that no opening quote begins with stand outside the spans at the front of a text. -/
theorem Exposes.dropWhile {g : Grammar} {q : Char} (hq : g.quoteOpen = [q]) {p : Char → Bool} (hp : p q = false)
    {t e : Text} (h : Exposes g t e) : ∃ e₁ e₂, e = e₁ ++ e₂ ∧ Exposes g (t.dropWhile p) e₂ := by
  induction h with
  | nil => exact ⟨[], [], rfl, .nil⟩
  | @span body rest e hspan hrest _ =>
    have hstay : (g.quote body ++ rest).dropWhile p = g.quote body ++ rest := by
      rw [quote, hq, List.singleton_append, List.cons_append, List.cons_append,
        List.dropWhile_cons_of_neg (by rw [hp]; exact Bool.false_ne_true)]
    rw [hstay]
    exact ⟨[], e, rfl, .span hspan hrest⟩
  | @char x t e habs ht ih =>
    by_cases hx : p x = true
    · obtain ⟨e₁, e₂, rfl, h₂⟩ := ih
      rw [List.dropWhile_cons_of_pos hx]
      exact ⟨x :: e₁, e₂, rfl, h₂⟩
    · rw [List.dropWhile_cons_of_neg hx]
      exact ⟨[], x :: e, rfl, .char habs ht⟩

theorem Exposes.of_append {g : Grammar} {r : Char} (hr : g.quoteClose = [r]) {s w e : Text} (hw : r ∉ w)
    (h : Exposes g (s ++ w) e) : ∃ e₁ e₂, e = e₁ ++ e₂ ∧ Exposes g s e₁ ∧ e₂ ⊆ w := by
  generalize ht : s ++ w = t at h
  induction h generalizing s with
  | nil =>
    obtain ⟨rfl, rfl⟩ := List.append_eq_nil_iff.1 ht
    exact ⟨[], [], rfl, .nil, List.Subset.refl _⟩
  | @span body rest e hspan _ ih =>
    have hs : ∀ a, rest = a ++ w → s = g.quote body ++ a → ∃ e₁ e₂, e = e₁ ++ e₂ ∧ Exposes g s e₁ ∧ e₂ ⊆ w := by
      rintro a ha rfl
      obtain ⟨e₁, e₂, rfl, h₁, h₂⟩ := ih ha.symm
      exact ⟨e₁, e₂, rfl, .span (quotedAt_quote_append a hspan) h₁, h₂⟩
    rcases List.append_eq_append_iff.1 ht with ⟨b, hb, rfl⟩ | ⟨a, hsa, ha⟩
    · rcases List.eq_nil_or_concat b with rfl | ⟨b, x, rfl⟩
      · exact hs [] rfl (by simpa using hb.symm)
      · -- `w` would hold the closing quote of the span
        rw [quote, hr, List.concat_eq_append, ← List.append_assoc] at hb
        obtain rfl : r = x := by simpa using (List.append_inj' hb rfl).2
        exact absurd (by simp) hw
    · exact hs a ha hsa
  | @char x t e habs hte ih =>
    cases s with
    | nil =>
      rw [List.nil_append] at ht
      rw [ht]
      exact ⟨[], x :: e, rfl, .nil, (Exposes.char habs hte).subset⟩
    | cons y s =>
      rw [List.cons_append] at ht
      obtain ⟨rfl, hrest⟩ := List.cons.inj ht
      obtain ⟨e₁, e₂, rfl, h₁, h₂⟩ := ih hrest
      rw [← ht, ← List.cons_append] at habs
      exact ⟨y :: e₁, e₂, rfl, .char (quotedAt_of_append_absent habs) h₁, h₂⟩

theorem Exposes.quote {g : Grammar} {body : Text} (h : g.quotedAt (g.quote body) = .span body []) :
    Exposes g (g.quote body) [] := by
  have hspan : g.quotedAt (g.quote body ++ []) = .span body [] := by simpa using h
  simpa using Exposes.span hspan .nil

end TermTree.Grammar
