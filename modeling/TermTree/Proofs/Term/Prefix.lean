/-
How the texts of a term begin and end. A longer text reads as the same term as a beginning of it only where it
goes on with a verbatim span, which is then empty (`readAt_append`). So when a text begins with two texts of
one term, and no quote follows either, these are the same text (`eq_of_readAt`). None of them begins with a
blank, and only a term that is written as nothing has a text that begins with an empty span.
-/
import TermTree.Proofs.Term.RoundTrip

namespace TermTree.Term
variable {g : Grammar} {h : g.Valid}

/-- Where the contents of a text and of a longer one agree, so do the places where they end, unless the
longer text goes on with a verbatim span. -/
theorem readContent_append {q : Char} (hq : g.quoteOpen = [q]) {bare : Text → Text × Text}
    (hb : ∀ t, (bare t).1 ++ (bare t).2 = t) {pos pos' : Nat} {t u : Text} {r r' : Reading}
    (hr : readContent g bare pos t = .ok r) (hr' : readContent g bare pos' (t ++ u) = .ok r')
    (hc : r.content = r'.content) : r'.rest = r.rest ++ u ∨ u.head? = some q := by
  simp only [readContent] at hr
  split at hr
  · contradiction
  · next body rest hspan =>
    cases hr
    simp only [readContent, Grammar.quotedAt_append_of_span u hspan, Except.ok.injEq] at hr'
    exact .inl (by rw [← hr'])
  · next habs =>
    cases hr
    by_cases hu : u.head? = some q
    · exact .inr hu
    · have habs' : g.quotedAt (t ++ u) = .absent := by
        rw [Grammar.quotedAt_eq_absent_iff_head? hq] at habs ⊢
        cases t with
        | nil => exact hu
        | cons c t => exact habs
      simp only [readContent, habs', Except.ok.injEq] at hr'
      subst hr'
      simp only at hc
      have hwhole := hb (t ++ u)
      rw [← hc] at hwhole
      conv at hwhole => rhs; rw [← hb t]
      rw [List.append_assoc] at hwhole
      exact .inl (List.append_cancel_left hwhole)

theorem readParameters_eq_nil {whole : Text} {pos : Nat} {t : Text}
    (hr : readParameters g h whole pos t = .ok []) : t = [] := by
  cases t with
  | nil => rfl
  | cons c t =>
    rw [readParameters_cons] at hr
    split at hr
    · contradiction
    · split at hr
      · contradiction
      · obtain ⟨ps, -, hps⟩ := Outcome.map_eq_ok.1 hr
        contradiction

section
variable (hg : g.Punctuated)
include hg

theorem readParameters_append {q : Char} (hq : g.quoteOpen = [q]) {whole whole' : Text} {pos pos' : Nat} {t u : Text}
    {ps : List Parameter} (hr : readParameters g h whole pos t = .ok ps)
    (hr' : readParameters g h whole' pos' (t ++ u) = .ok ps) : u = [] ∨ u.head? = some q := by
  fun_induction readParameters g h whole pos t generalizing pos' ps with
  | case1 =>
    cases hr
    exact .inl (readParameters_eq_nil hr')
  | case2 => contradiction
  | case3 => contradiction
  | case4 pos c t' d hd value hv ih =>
    obtain ⟨qs, hqs, rfl⟩ := Outcome.map_eq_ok.1 hr
    have hc : [c] ∈ g.delimiters := by
      by_cases hc : [c] ∈ g.delimiters
      · exact hc
      · rw [hg.leadingDelimiter?_of_not_mem t' hc] at hd
        contradiction
    rw [hg.leadingDelimiter?_of_mem t' hc] at hd
    cases hd
    rw [List.cons_append, readParameters_cons, hg.leadingDelimiter?_of_mem _ hc] at hr'
    simp only [List.length_singleton, List.drop_succ_cons, List.drop_zero] at hv hr'
    split at hr'
    · contradiction
    · next value' hv' =>
      obtain ⟨qs', hqs', heq⟩ := Outcome.map_eq_ok.1 hr'
      simp only [List.cons.injEq, Parameter.mk.injEq, true_and] at heq
      obtain ⟨hcontent, rfl⟩ := heq
      rcases readContent_append hq (bareValue_append g) hv hv' hcontent.symm with hrest | hhead
      · rw [hrest] at hqs'
        exact ih hqs hqs'
      · exact .inr hhead

/-- A longer text of the same term goes on with a verbatim span. -/
theorem readAt_append {q : Char} (hq : g.quoteOpen = [q]) {pos pos' : Nat} {t u : Text} {a : Term}
    (hr : readAt g h pos t = .ok a) (hr' : readAt g h pos' (t ++ u) = .ok a) : u = [] ∨ u.head? = some q := by
  rw [readAt] at hr hr'
  split at hr
  · contradiction
  · next name hname =>
    split at hr'
    · contradiction
    · next name' hname' =>
      obtain ⟨ps, hps, rfl⟩ := Outcome.map_eq_ok.1 hr
      obtain ⟨ps', hps', heq⟩ := Outcome.map_eq_ok.1 hr'
      simp only [Term.mk.injEq, and_true] at heq
      obtain ⟨hcontent, rfl⟩ := heq
      have hsplit : ∀ t : Text, t.takeWhile isPlainChar ++ t.dropWhile isPlainChar = t := fun t =>
        List.takeWhile_append_dropWhile
      rcases readContent_append hq hsplit hname hname' hcontent.symm with hrest | hhead
      · rw [hrest] at hps'
        exact readParameters_append hg hq hps hps'
      · exact .inr hhead

/-- Two texts of one term at the front of a text, neither with a quote behind it, are the same. -/
theorem eq_of_readAt {q : Char} (hq : g.quoteOpen = [q]) {pos pos' : Nat} {t t' u u' : Text} {a : Term}
    (hr : readAt g h pos t = .ok a) (hr' : readAt g h pos' t' = .ok a) (hu : u.head? ≠ some q)
    (hu' : u'.head? ≠ some q) (heq : t ++ u = t' ++ u') : t = t' := by
  rcases List.append_eq_append_iff.1 heq with ⟨y, rfl, rfl⟩ | ⟨y, rfl, rfl⟩
  · rcases readAt_append hg hq hr hr' with rfl | hy
    · simp
    · rw [List.head?_append, hy] at hu
      exact absurd rfl hu
  · rcases readAt_append hg hq hr' hr with rfl | hy
    · simp
    · rw [List.head?_append, hy] at hu'
      exact absurd rfl hu'

end

/-! ## How texts begin -/

theorem not_isBlank_of_isPlainChar {x : Char} (h : isPlainChar x = true) : Text.isBlank x = false := by
  have hx : (48 ≤ x.toNat ∧ x.toNat ≤ 57) ∨ (65 ≤ x.toNat ∧ x.toNat ≤ 90) ∨ (97 ≤ x.toNat ∧ x.toNat ≤ 122) ∨
      x.toNat = 45 := by
    unfold isPlainChar Char.isAlphanum Char.isAlpha Char.isUpper Char.isLower Char.isDigit at h
    simp only [Bool.or_eq_true, Bool.and_eq_true, decide_eq_true_eq, beq_iff_eq, ge_iff_le, UInt32.le_iff_toNat_le] at h
    rcases h with ((h | h) | h) | rfl
    · exact .inr (.inl h)
    · exact .inr (.inr (.inl h))
    · exact .inl h
    · decide
  rw [← Bool.not_eq_true, Text.isBlank, Unicode.inRanges_iff]
  simp [Text.blankRanges]
  omega

theorem head?_toText {g : Grammar} (hg : g.Punctuated) {a : Term} (ha : a.grammar = g)
    (hd : ∀ p ∈ a.parameters, p.delimiter ∈ g.delimiters) {x : Char} (hx : x ∈ a.toText.head?) :
    isPlainChar x = true ∨ [x] = g.quoteOpen ∨ [x] ∈ g.delimiters := by
  rw [toText, ha, nameText] at hx
  split at hx
  · next hplain =>
    cases hn : a.name with
    | nil =>
      rw [hn, List.nil_append] at hx
      exact .inr (.inr (atDelimiter_parameters hg hd x hx))
    | cons c name =>
      rw [hn] at hx hplain
      simp only [List.cons_append, List.head?_cons, Option.mem_def, Option.some.injEq] at hx
      subst hx
      exact .inl (List.all_eq_true.1 hplain c List.mem_cons_self)
  · obtain ⟨q, hq, -⟩ := hg.quoteOpen
    simp only [Grammar.quote, hq, List.cons_append, List.head?_cons, Option.mem_def, Option.some.injEq] at hx
    exact .inr (.inl (by rw [hq, hx]))

theorem head?_of_readAt (hg : g.Simple) {pos : Nat} {t : Text} {a : Term} (hr : readAt g h pos t = .ok a) {x : Char}
    (hx : x ∈ t.head?) : Text.isBlank x = false := by
  rw [readAt] at hr
  split at hr
  · contradiction
  · next name hname =>
    obtain ⟨ps, hps, -⟩ := Outcome.map_eq_ok.1 hr
    simp only [readName, readContent] at hname
    split at hname
    · contradiction
    · next hspan =>
      obtain ⟨q, hq, -⟩ := hg.punctuated.quoteOpen
      rw [Grammar.eq_append_of_quotedAt hspan, Grammar.quote, hq] at hx
      simp only [List.cons_append, List.head?_cons, Option.mem_def, Option.some.injEq] at hx
      exact hg.not_isBlank .quoteOpen (hx ▸ hq)
    · cases hname
      cases t with
      | nil => contradiction
      | cons c t =>
        obtain rfl : c = x := by simpa using hx
        by_cases hc : isPlainChar c = true
        · exact not_isBlank_of_isPlainChar hc
        · rw [List.dropWhile_cons_of_neg hc, readParameters_cons] at hps
          by_cases hd : [c] ∈ g.delimiters
          · exact hg.delimiter_unblank _ hd c List.mem_cons_self
          · rw [hg.punctuated.leadingDelimiter?_of_not_mem t hd] at hps
            contradiction

/-- Only an empty name without parameters is written as nothing. -/
theorem toText_eq_nil (hv : g.Valid) {a : Term} (ha : a.grammar = g)
    (hd : ∀ p ∈ a.parameters, p.delimiter ∈ g.delimiters) (hnil : a.toText = []) : a.name = [] ∧ a.parameters = [] := by
  rw [toText, ha] at hnil
  obtain ⟨hname, hparams⟩ := List.append_eq_nil_iff.1 hnil
  constructor
  · rw [nameText] at hname
    split at hname
    · exact hname
    · simp [Grammar.quote, hv.quoteOpen_ne] at hname
  · refine List.eq_nil_iff_forall_not_mem.2 fun p hp => ?_
    exact hv.delimiter_ne _ (hd p hp) (List.append_eq_nil_iff.1 (List.flatMap_eq_nil_iff.1 hparams p hp)).1

/-- An empty name without parameters can only be read from an empty verbatim span, or from nothing. -/
theorem eq_quote_nil_of_readAt {pos : Nat} {t : Text} {a : Term} (hname : a.name = []) (hparams : a.parameters = [])
    (hr : readAt g h pos t = .ok a) (ht : t ≠ []) : t = g.quote [] := by
  rw [readAt] at hr
  split at hr
  · contradiction
  · next name hread =>
    obtain ⟨ps, hps, rfl⟩ := Outcome.map_eq_ok.1 hr
    simp only at hname hparams
    subst hparams
    have hrest := readParameters_eq_nil hps
    simp only [readName, readContent] at hread
    split at hread
    · contradiction
    · next hspan =>
      cases hread
      simp only at hname hrest
      rw [Grammar.eq_append_of_quotedAt hspan, hname, hrest, List.append_nil]
    · cases hread
      simp only at hname hrest
      have hparts := List.takeWhile_append_dropWhile (p := isPlainChar) (l := t)
      rw [hname, hrest] at hparts
      exact absurd hparts.symm ht

theorem not_quote_nil_prefix_toText (hg : g.Punctuated) {a : Term} (ha : a.grammar = g) (har : a.Restorable)
    (hne : a.toText ≠ []) (t : Text) : ¬ g.quote [] <+: a.toText ++ t := by
  subst ha
  obtain ⟨q, hq, hqp⟩ := hg.quoteOpen
  obtain ⟨r, hr, -⟩ := hg.quoteClose
  rw [Grammar.quote, hq, hr]
  rintro ⟨u, hu⟩
  simp only [List.append_nil, List.cons_append, List.nil_append] at hu
  by_cases hname : a.name.all isPlainChar = true
  · obtain ⟨x, s, hx⟩ := List.exists_cons_of_ne_nil hne
    rw [hx] at hu
    obtain rfl : q = x := (List.cons.inj hu).1
    cases hn : a.name with
    | nil =>
      have hd := atDelimiter_parameters hg har.delimiter q (by simpa [toText, nameText, hn] using congrArg List.head? hx)
      exact (hg.delimiter_ne_quote _ hd).1 hq.symm
    | cons c name =>
      rw [toText, nameText, if_pos hname, hn] at hx
      obtain rfl : c = q := (List.cons.inj hx).1
      rw [List.all_eq_true.1 hname c (by simp [hn])] at hqp
      contradiction
  · obtain ⟨c, name, hn⟩ := List.exists_cons_of_ne_nil (l := a.name) (by
      intro hn
      simp [hn] at hname)
    rw [toText, nameText, if_neg hname, Grammar.quote, hq, hn] at hu
    simp only [List.append_assoc, List.cons_append, List.nil_append, List.cons.injEq, true_and] at hu
    have hnot := har.name
    rw [hr, List.singleton_infix_iff, hn] at hnot
    exact hnot (by simp [hu.1])

end TermTree.Term
