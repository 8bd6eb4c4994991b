/-
What two texts say once they stand one behind the other. A marker that is found in the first text is
still found there, and where the second text cannot continue a marker, none arises at the seam
(`after?_append_of_clearOf`, `breakOn?_append_of_eq_some`). Trimming takes the blanks off the outer ends
and leaves those at the seam (`trim_append_append`).
-/
import Mathlib.Data.List.Infix
import TermTree.Text.Blank

namespace TermTree.Text

/-- The text `t` cannot continue `marker`: it is empty or begins with a character that is not in the
marker. -/
def ClearOf (marker t : Text) : Prop := ∀ c ∈ t.head?, c ∉ marker

theorem ClearOf.nil {marker : Text} : ClearOf marker [] := by simp [ClearOf]

theorem ClearOf.cons {marker t : Text} {c : Char} (h : c ∉ marker) : ClearOf marker (c :: t) := by
  simpa [ClearOf] using h

theorem ClearOf.not_prefix {marker t : Text} (h : ClearOf marker t) (hm : marker ≠ []) : ¬ marker <+: t := by
  cases marker with
  | nil => exact absurd rfl hm
  | cons m marker =>
    rintro ⟨u, rfl⟩
    exact h m (by simp) (by simp)

theorem after?_append_of_eq_some {marker s rest : Text} (t : Text) (h : after? marker s = some rest) :
    after? marker (s ++ t) = some (rest ++ t) := by
  rw [eq_append_of_after? h, List.append_assoc, after?_append]

/-- No marker arises at a seam behind which it cannot go on. -/
theorem after?_append_of_clearOf {marker s t : Text} (h : ClearOf marker t) :
    after? marker (s ++ t) = (after? marker s).map (· ++ t) := by
  induction marker generalizing s with
  | nil => simp [after?]
  | cons m marker ih =>
    cases s with
    | nil =>
      have hno : ¬ (m :: marker) <+: t := h.not_prefix (by simp)
      simpa [after?] using after?_eq_none.2 hno
    | cons c s =>
      have h' : ClearOf marker t := fun c hc hm => h c hc (by simp [hm])
      by_cases hmc : m = c
      · simp [after?, hmc, ih h']
      · simp [after?, hmc]

/-- A text that does not begin with a marker, and is at least as long, does not begin with it in front of
another text either. -/
theorem after?_append_eq_none {marker s : Text} (t : Text) (h : after? marker s = none)
    (hl : marker.length ≤ s.length) : after? marker (s ++ t) = none := by
  rw [after?_eq_none] at h ⊢
  intro hp
  exact h (List.prefix_of_prefix_length_le hp (List.prefix_append s t) hl)

/-- A marker at the front of two texts stands in the first of them, if it cannot go on in the second. -/
theorem prefix_of_prefix_append {marker s t : Text} (h : ClearOf marker t) (hp : marker <+: s ++ t) : marker <+: s := by
  by_contra hno
  rw [← after?_eq_none] at hno
  refine after?_eq_none.1 ?_ hp
  rw [after?_append_of_clearOf h, hno, Option.map_none]

theorem breakOn?_append_of_eq_some {marker s body rest : Text} (t : Text)
    (h : breakOn? marker s = some (body, rest)) : breakOn? marker (s ++ t) = some (body, rest ++ t) := by
  induction s generalizing body with
  | nil =>
    simp only [breakOn?, Option.map_eq_some_iff, Prod.mk.injEq] at h
    obtain ⟨r, hr, rfl, rfl⟩ := h
    obtain ⟨rfl, rfl⟩ := List.append_eq_nil_iff.1 (eq_append_of_after? hr).symm
    cases t <;> rfl
  | cons c s ih =>
    simp only [breakOn?] at h
    split at h
    · next r hr =>
      simp only [Option.some.injEq, Prod.mk.injEq] at h
      obtain ⟨rfl, rfl⟩ := h
      have hrt := after?_append_of_eq_some t hr
      simp only [List.cons_append] at hrt ⊢
      simp only [breakOn?, hrt]
    · next hno =>
      simp only [Option.map_eq_some_iff, Prod.mk.injEq] at h
      obtain ⟨⟨b, r⟩, hbr, rfl, rfl⟩ := h
      have hl : marker.length ≤ (c :: s).length := by
        have := congrArg List.length (eq_append_of_breakOn? hbr)
        simp only [List.length_append, List.length_cons] at this ⊢
        omega
      have hnot := after?_append_eq_none t hno hl
      simp only [List.cons_append] at hnot ⊢
      simp only [breakOn?, hnot, ih hbr, Option.map_some]

/-- With `marker` behind it, `body` holds the marker nowhere before its end. -/
def FirstAtEnd (marker body : Text) : Prop := ∀ s u, body = s ++ u → u ≠ [] → ¬ marker <+: u ++ marker

/-- A text is cut at a marker exactly where the marker first occurs. -/
theorem breakOn?_eq_some {marker t body rest : Text} :
    breakOn? marker t = some (body, rest) ↔ t = body ++ marker ++ rest ∧ FirstAtEnd marker body := by
  constructor
  · intro h
    refine ⟨eq_append_of_breakOn? h, ?_⟩
    induction t generalizing body with
    | nil =>
      simp only [breakOn?, Option.map_eq_some_iff, Prod.mk.injEq] at h
      obtain ⟨r, -, rfl, rfl⟩ := h
      simp [FirstAtEnd]
    | cons c t ih =>
      have hwhole := eq_append_of_breakOn? h
      simp only [breakOn?] at h
      split at h
      · cases h
        simp [FirstAtEnd]
      · next hno =>
        simp only [Option.map_eq_some_iff, Prod.mk.injEq] at h
        obtain ⟨⟨b, r⟩, hbr, rfl, rfl⟩ := h
        intro s u hs hu hp
        cases s with
        | nil =>
          rw [List.nil_append] at hs
          rw [hs] at hwhole
          exact after?_eq_none.1 hno (hp.trans ⟨r, hwhole.symm⟩)
        | cons x s => exact ih hbr s u (List.cons.inj hs).2 hu hp
  · rintro ⟨rfl, h⟩
    refine breakOn?_append rest fun s u hs hu hp => h s u hs hu ?_
    -- an occurrence that begins inside `body` ends before `rest`
    refine List.prefix_of_prefix_length_le hp (List.prefix_append _ rest) ?_
    rw [List.length_append]
    omega

theorem not_infix_of_breakOn? {marker t body rest : Text} (hm : marker ≠ [])
    (h : breakOn? marker t = some (body, rest)) : ¬ marker <:+: body := by
  rintro ⟨s, u, rfl⟩
  have hfirst := (breakOn?_eq_some.1 h).2 s (marker ++ u) (by simp) (by simp [hm])
  exact hfirst ⟨u ++ marker, by simp⟩

theorem FirstAtEnd.not_infix {marker body : Text} (hm : marker ≠ []) (h : FirstAtEnd marker body) :
    ¬ marker <:+: body := by
  have hcut : breakOn? marker (body ++ marker ++ []) = some (body, []) := breakOn?_eq_some.2 ⟨rfl, h⟩
  exact not_infix_of_breakOn? hm hcut

/-- The text `m` does not begin like it ends, except as a whole. -/
def Borderless (m : Text) : Prop := ∀ n < m.length, 0 < n → ¬ m.drop n <+: m

/-- A marker without a border is first found behind a text that does not hold it. -/
theorem Borderless.firstAtEnd {marker body : Text} (hm : Borderless marker) (h : ¬ marker <:+: body) :
    FirstAtEnd marker body := by
  rintro s u rfl hu hp
  rcases Nat.lt_or_ge u.length marker.length with hlt | hle
  · -- what of the marker reaches past the body is a border
    obtain ⟨x, rfl⟩ := List.prefix_of_prefix_length_le (List.prefix_append u marker) hp hlt.le
    refine hm u.length hlt (List.length_pos_iff.2 hu) ?_
    rw [List.drop_left]
    exact (List.prefix_append_right_inj u).1 hp
  · have hpu : marker <+: u := List.prefix_of_prefix_length_le hp (List.prefix_append u marker) hle
    exact h (hpu.isInfix.trans (List.suffix_append s u).isInfix)

/-! ## Markers of one character -/

theorem breakOn?_singleton {c : Char} {body : Text} (rest : Text) (h : c ∉ body) :
    breakOn? [c] (body ++ c :: rest) = some (body, rest) := by
  have hcut : breakOn? [c] (body ++ [c] ++ rest) = some (body, rest) := by
    refine breakOn?_append rest fun s u hs hu hp => ?_
    cases u with
    | nil => exact hu rfl
    | cons x u =>
      simp only [List.cons_append, List.cons_prefix_cons] at hp
      exact h (by simp [hs, hp.1])
  simpa using hcut

/-! ## Joined texts -/

theorem joinWith_cons (sep t : Text) (ts : List Text) :
    joinWith sep (t :: ts) = t ++ ((if ts = [] then [] else sep) ++ joinWith sep ts) := by
  cases ts <;> simp [joinWith]

/-! ## Trimmed texts -/

/-- A text with no blank at either end. -/
def Trimmed (t : Text) : Prop := (∀ c ∈ t.head?, isBlank c = false) ∧ ∀ c ∈ t.getLast?, isBlank c = false

theorem isBlank_of_mem_leadingBlanks {t : Text} {c : Char} (h : c ∈ leadingBlanks t) : isBlank c = true :=
  List.all_eq_true.1 List.all_takeWhile c h

theorem isBlank_of_mem_trailingBlanks {t : Text} {c : Char} (h : c ∈ trailingBlanks t) : isBlank c = true :=
  List.all_eq_true.1 List.all_takeWhile c (List.mem_reverse.1 h)

theorem head?_dropWhile {p : Char → Bool} {t : Text} {c : Char} (h : c ∈ (t.dropWhile p).head?) : p c = false := by
  have := List.head?_dropWhile_not p t
  rw [Option.mem_def.1 h] at this
  simpa using this

theorem cut_append {p : Char → Bool} {s t : Text} (hs : ∀ c ∈ s, p c = true) (ht : ∀ c ∈ t.head?, p c = false) :
    (s ++ t).takeWhile p = s ∧ (s ++ t).dropWhile p = t := by
  rw [List.takeWhile_append_of_pos hs, List.dropWhile_append_of_pos hs]
  cases t with
  | nil => simp
  | cons c t =>
    have hc : ¬ p c = true := by simpa using ht c (by simp)
    rw [List.takeWhile_cons_of_neg hc, List.dropWhile_cons_of_neg hc]
    simp

/-- Where two runs of such characters, each with another one behind it, begin the same text, they are the same. -/
theorem cut_inj {p : Char → Bool} {s s' t t' : Text} (hs : ∀ c ∈ s, p c = true) (hs' : ∀ c ∈ s', p c = true)
    (ht : ∀ c ∈ t.head?, p c = false) (ht' : ∀ c ∈ t'.head?, p c = false) (heq : s ++ t = s' ++ t') :
    s = s' ∧ t = t' := by
  obtain ⟨htake, hdrop⟩ := cut_append hs ht
  obtain ⟨htake', hdrop'⟩ := cut_append hs' ht'
  rw [heq, htake'] at htake
  rw [heq, hdrop'] at hdrop
  exact ⟨htake.symm, hdrop.symm⟩

theorem trimEnd_append_of_blank {s t : Text} (hs : ∀ c ∈ s.getLast?, isBlank c = false)
    (ht : ∀ c ∈ t, isBlank c = true) : trailingBlanks (s ++ t) = t ∧ trimEnd (s ++ t) = s := by
  have hs' : ∀ c ∈ s.reverse.head?, isBlank c = false := by simpa using hs
  have ht' : ∀ c ∈ t.reverse, isBlank c = true := by simpa using ht
  obtain ⟨htake, hdrop⟩ := cut_append ht' hs'
  rw [trailingBlanks, trimEnd, List.reverse_append, htake, hdrop, List.reverse_reverse, List.reverse_reverse]
  exact ⟨rfl, rfl⟩

theorem Trimmed.parts_eq {lead body trail : Text} (hb : Trimmed body) (hne : body ≠ [])
    (hl : ∀ c ∈ lead, isBlank c = true) (ht : ∀ c ∈ trail, isBlank c = true) :
    leadingBlanks (lead ++ body ++ trail) = lead ∧ trim (lead ++ body ++ trail) = body ∧
      trailingBlanks (lead ++ body ++ trail) = trail := by
  have hhead : ∀ c ∈ (body ++ trail).head?, isBlank c = false := by
    obtain ⟨c, u, rfl⟩ := List.exists_cons_of_ne_nil hne
    exact hb.1
  have hlast : ∀ c ∈ (lead ++ body).getLast?, isBlank c = false := by
    rw [List.getLast?_append, List.getLast?_eq_some_getLast hne, Option.some_or, ← List.getLast?_eq_some_getLast hne]
    exact hb.2
  obtain ⟨htake, hdrop⟩ := cut_append hl hhead
  refine ⟨?_, ?_, (trimEnd_append_of_blank hlast ht).1⟩
  · rw [List.append_assoc, leadingBlanks, htake]
  · rw [List.append_assoc, trim, trimStart, hdrop, (trimEnd_append_of_blank hb.2 ht).2]

theorem trimmed_trim (t : Text) : Trimmed (trim t) := by
  constructor
  · intro c hc
    have htrim : trim t ++ trailingBlanks (trimStart t) = t.dropWhile isBlank := trimEnd_append_trailingBlanks _
    refine head?_dropWhile (t := t) ?_
    rw [← htrim, List.head?_append, Option.mem_def.1 hc]
    rfl
  · intro c hc
    refine head?_dropWhile (t := (trimStart t).reverse) ?_
    simpa [trim, trimEnd] using hc

/-- A text that is not all blanks falls into its leading blanks, what trimming leaves, and its trailing
blanks. -/
theorem eq_append_trim_append {t : Text} (h : trim t ≠ []) : t = leadingBlanks t ++ trim t ++ trailingBlanks t := by
  have hparts := (trimmed_trim t).parts_eq h (fun _ => isBlank_of_mem_leadingBlanks (t := t))
    fun _ => isBlank_of_mem_trailingBlanks (t := trimStart t)
  rw [leadingBlanks_append_trim_append] at hparts
  rw [hparts.2.2, leadingBlanks_append_trim_append]

theorem Trimmed.trim_self {t : Text} (h : Trimmed t) : leadingBlanks t = [] ∧ trim t = t := by
  by_cases hne : t = []
  · subst hne
    exact ⟨rfl, rfl⟩
  · have hparts : leadingBlanks ([] ++ t ++ []) = [] ∧ trim ([] ++ t ++ []) = t ∧ trailingBlanks ([] ++ t ++ []) = [] :=
      h.parts_eq hne (by simp) (by simp)
    simp only [List.nil_append, List.append_nil] at hparts
    exact ⟨hparts.1, hparts.2.1⟩

/-- Nothing is left of a text exactly when it is all blanks. -/
theorem trim_eq_nil_iff {t : Text} : trim t = [] ↔ ∀ c ∈ t, isBlank c = true := by
  constructor
  · intro h c hc
    rw [← leadingBlanks_append_trim_append t, h, List.append_nil, List.mem_append] at hc
    exact hc.elim isBlank_of_mem_leadingBlanks isBlank_of_mem_trailingBlanks
  · intro h
    have hstart : trimStart t = [] := by
      have := (cut_append (t := []) h (by simp)).2
      simpa [trimStart] using this
    rw [trim, hstart]
    rfl

/-! ## Trimming joined texts -/

theorem trim_append_of_blank {s : Text} (hs : ∀ c ∈ s, isBlank c = true) (t : Text) :
    leadingBlanks (s ++ t) = s ++ leadingBlanks t ∧ trim (s ++ t) = trim t := by
  rw [leadingBlanks, leadingBlanks, trim, trim, trimStart, trimStart, List.takeWhile_append_of_pos hs,
    List.dropWhile_append_of_pos hs]
  exact ⟨rfl, rfl⟩

theorem trim_append_blank {s t : Text} (hs : trim s ≠ []) (ht : ∀ c ∈ t, isBlank c = true) :
    leadingBlanks (s ++ t) = leadingBlanks s ∧ trim (s ++ t) = trim s := by
  have htrail : ∀ c ∈ trailingBlanks s ++ t, isBlank c = true := fun c hc =>
    (List.mem_append.1 hc).elim isBlank_of_mem_trailingBlanks (ht c)
  have hparts := (trimmed_trim s).parts_eq hs (fun _ => isBlank_of_mem_leadingBlanks (t := s)) htrail
  rw [← List.append_assoc, ← eq_append_trim_append hs] at hparts
  exact ⟨hparts.1, hparts.2.1⟩

/-- What stands between two texts that are not all blanks is kept when they are trimmed as one. -/
theorem trim_append_append {s t : Text} (w : Text) (hs : trim s ≠ []) (ht : trim t ≠ []) :
    leadingBlanks (s ++ w ++ t) = leadingBlanks s ∧
      trim (s ++ w ++ t) = trim s ++ (trailingBlanks s ++ w ++ leadingBlanks t) ++ trim t := by
  have hbody : Trimmed (trim s ++ (trailingBlanks s ++ w ++ leadingBlanks t) ++ trim t) := by
    constructor
    · obtain ⟨c, u, hc⟩ := List.exists_cons_of_ne_nil hs
      have hhead := (trimmed_trim s).1
      rw [hc] at hhead ⊢
      exact hhead
    · rw [List.getLast?_append, List.getLast?_eq_some_getLast ht, Option.some_or, ← List.getLast?_eq_some_getLast ht]
      exact (trimmed_trim t).2
  have hparts := hbody.parts_eq (by simp [hs]) (fun _ => isBlank_of_mem_leadingBlanks (t := s))
    fun _ => isBlank_of_mem_trailingBlanks (t := t)
  have hwhole : leadingBlanks s ++ (trim s ++ (trailingBlanks s ++ w ++ leadingBlanks t) ++ trim t) ++ trailingBlanks t =
      s ++ w ++ t := by
    conv => rhs; rw [eq_append_trim_append hs, eq_append_trim_append ht]
    simp only [List.append_assoc]
  rw [hwhole] at hparts
  exact ⟨hparts.1, hparts.2.1⟩

end TermTree.Text
