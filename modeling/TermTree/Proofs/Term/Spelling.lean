/-
The texts of terms, said without the reader. A spelling is a text in its parts: a name, and then delimiters with
their values, each part with the way in which it is written. `Spelling.Fits` says what a grammar asks of the
parts: where a verbatim span ends, how far a name and a bare value go, and which of several delimiters counts. A
text reads as a term exactly when it has a spelling that fits, and it has at most one (`read_eq_ok_iff_spelling`).
-/
import TermTree.Proofs.Grammar.Span
import TermTree.Term.Reader

namespace TermTree

/-- Of the delimiters that `t` begins with, `d` is the first in the list. -/
def Grammar.Leads (g : Grammar) (d t : Text) : Prop :=
  d <+: t ∧ ∃ before after, g.delimiters = before ++ d :: after ∧ ∀ e ∈ before, ¬ e <+: t

theorem Grammar.leadingDelimiter?_eq_some {g : Grammar} {d t : Text} :
    g.leadingDelimiter? t = some d ↔ g.Leads d t := by
  simp only [leadingDelimiter?, Leads, List.find?_eq_some_iff_append, Bool.not_eq_true', ← Bool.not_eq_true,
    List.isPrefixOf_iff_prefix, exists_and_right]

namespace Term

/-- What a name or a value says, and how it is written. -/
structure Spelled where
  content : Text
  written : Text

/-- A delimiter and the value behind it. -/
structure Segment where
  delimiter : Text
  value : Spelled

/-- The parts of the text of a term. -/
structure Spelling where
  name : Spelled
  segments : List Segment

def Segment.text (s : Segment) : Text := s.delimiter ++ s.value.written

def Segment.parameter (s : Segment) : Parameter := ⟨s.delimiter, s.value.content⟩

/-- The parts one behind the other. -/
def Spelling.text (s : Spelling) : Text := s.name.written ++ s.segments.flatMap Segment.text

/-- What the parts say. -/
def Spelling.term (g : Grammar) (s : Spelling) : Term :=
  { name := s.name.content, parameters := s.segments.map Segment.parameter, grammar := g }

/-- In front of `rest`, a name or a value is a verbatim span that ends at the first closing quote, or else no
span opens and it is written as it is, as far as `Bare` says. -/
def Spelled.Fits (g : Grammar) (Bare : Text → Text → Prop) (s : Spelled) (rest : Text) : Prop :=
  (s.written = g.quote s.content ∧ Text.FirstAtEnd g.quoteClose s.content) ∨
    (¬ g.quoteOpen <+: s.written ++ rest ∧ s.written = s.content ∧ Bare s.content rest)

/-- A bare name in front of `rest` is the longest run of plain characters there. -/
structure LongestRun (name rest : Text) : Prop where
  plain : ∀ c ∈ name, isPlainChar c = true
  longest : ∀ p, p <+: name ++ rest → (∀ c ∈ p, isPlainChar c = true) → p.length ≤ name.length

/-- Nowhere inside a bare value in front of `rest` does a delimiter stand. -/
def Uncut (g : Grammar) (value rest : Text) : Prop :=
  ∀ s u, value = s ++ u → u ≠ [] → ∀ d ∈ g.delimiters, ¬ d <+: u ++ rest

/-- Delimiters and values as they may follow a name. -/
inductive Follow (g : Grammar) : List Segment → Prop where
  | nil : Follow g []
  | cons {s : Segment} {ss : List Segment} : g.Leads s.delimiter (s.text ++ ss.flatMap Segment.text) →
      s.value.Fits g (Uncut g) (ss.flatMap Segment.text) → Follow g ss → Follow g (s :: ss)

/-- The parts are those in which the grammar `g` takes their text apart. -/
structure Spelling.Fits (g : Grammar) (s : Spelling) : Prop where
  name : s.name.Fits g LongestRun (s.segments.flatMap Segment.text)
  segments : Follow g s.segments

variable {g : Grammar} {h : g.Valid} {pos : Nat} {t : Text}

/-! ## Bare names and values -/

theorem longestRun_iff {name rest : Text} :
    LongestRun name rest ↔
      (name ++ rest).takeWhile isPlainChar = name ∧ (name ++ rest).dropWhile isPlainChar = rest := by
  constructor
  · rintro ⟨hplain, hlongest⟩
    refine Text.cut_append hplain fun c hc => ?_
    obtain ⟨rest, rfl⟩ := List.head?_eq_some_iff.1 hc
    rw [← Bool.not_eq_true]
    intro hcp
    -- with one more character the run would be longer
    have hlen := hlongest (name ++ [c]) ⟨rest, by simp⟩ fun d hd => by
      rcases List.mem_append.1 hd with hd | hd
      · exact hplain d hd
      · rw [List.mem_singleton.1 hd, hcp]
    rw [List.length_append, List.length_singleton] at hlen
    omega
  · rintro ⟨htake, -⟩
    refine ⟨fun c hc => ?_, fun p hp hplain => ?_⟩
    · rw [← htake] at hc
      exact List.all_eq_true.1 List.all_takeWhile c hc
    · obtain ⟨u, hu⟩ := hp
      rw [← hu, List.takeWhile_append_of_pos hplain] at htake
      rw [← htake, List.length_append]
      omega

/-- The text `rest` is empty or begins with a delimiter. -/
def AtCut (g : Grammar) (rest : Text) : Prop := rest ≠ [] → (g.leadingDelimiter? rest).isSome = true

theorem uncut_bareValue (g : Grammar) (t : Text) : Uncut g (bareValue g t).1 (bareValue g t).2 := by
  induction t with
  | nil => simp [bareValue, Uncut]
  | cons c t ih =>
    simp only [bareValue]
    split
    · simp [Uncut]
    · next hno =>
      rw [Option.not_isSome_iff_eq_none, Grammar.leadingDelimiter?_eq_none] at hno
      intro s u hs hu d hd hp
      cases s with
      | nil =>
        rw [List.nil_append] at hs
        rw [← hs, List.cons_append, bareValue_append] at hp
        exact hno d hd hp
      | cons x s => exact ih s u (List.cons.inj hs).2 hu d hd hp

theorem bareValue_of_uncut {value rest : Text} (hv : Uncut g value rest) (hr : AtCut g rest) :
    bareValue g (value ++ rest) = (value, rest) := by
  induction value with
  | nil =>
    cases rest with
    | nil => rfl
    | cons c rest => simp [bareValue, hr (List.cons_ne_nil c rest)]
  | cons c value ih =>
    have hno : g.leadingDelimiter? (c :: (value ++ rest)) = none :=
      Grammar.leadingDelimiter?_eq_none.2 (hv [] (c :: value) rfl (by simp))
    have hrest := ih fun s u hs hu => hv (c :: s) u (by simp [hs]) hu
    simp [bareValue, hno, hrest]

/-! ## Names and values -/

/-- What the reader takes for a name or a value fits. -/
theorem fits_of_readContent {bare : Text → Text × Text} {Bare : Text → Text → Prop}
    (happ : ∀ t, (bare t).1 ++ (bare t).2 = t) (hbare : ∀ t, Bare (bare t).1 (bare t).2) {r : Reading}
    (hr : readContent g bare pos t = .ok r) :
    t = r.written ++ r.rest ∧ Spelled.Fits g Bare ⟨r.content, r.written⟩ r.rest := by
  refine ⟨eq_append_of_readContent happ hr, ?_⟩
  simp only [readContent] at hr
  split at hr
  · contradiction
  · next hspan =>
    cases hr
    exact .inl ⟨rfl, (Grammar.quotedAt_eq_span_iff.1 hspan).2⟩
  · next habs =>
    cases hr
    refine .inr ⟨?_, rfl, hbare t⟩
    rw [happ]
    exact Grammar.quotedAt_eq_absent.1 habs

/-- A name or a value that fits is what the reader takes. -/
theorem readContent_of_fits {bare : Text → Text × Text} {Bare : Text → Text → Prop} {s : Spelled} {rest : Text}
    (hbare : Bare s.content rest → bare (s.content ++ rest) = (s.content, rest)) (hs : s.Fits g Bare rest) :
    readContent g bare pos (s.written ++ rest) = .ok ⟨s.content, s.written, rest⟩ := by
  rw [readContent]
  rcases hs with ⟨hw, hfirst⟩ | ⟨hopen, hw, hb⟩
  · rw [hw, Grammar.quotedAt_eq_span_iff.2 ⟨rfl, hfirst⟩]
  · rw [Grammar.quotedAt_eq_absent.2 hopen]
    simp only [hw, hbare hb]

theorem fits_of_readName {r : Reading} (hr : readName g pos t = .ok r) :
    t = r.written ++ r.rest ∧ Spelled.Fits g LongestRun ⟨r.content, r.written⟩ r.rest := by
  have happ : ∀ t : Text, t.takeWhile isPlainChar ++ t.dropWhile isPlainChar = t := fun _ =>
    List.takeWhile_append_dropWhile
  refine fits_of_readContent happ (fun t => longestRun_iff.2 ?_) hr
  simp only [happ, and_self]

theorem readName_of_fits {s : Spelled} {rest : Text} (hs : s.Fits g LongestRun rest) :
    readName g pos (s.written ++ rest) = .ok ⟨s.content, s.written, rest⟩ := by
  refine readContent_of_fits (fun hrun => ?_) hs
  obtain ⟨htake, hdrop⟩ := longestRun_iff.1 hrun
  rw [htake, hdrop]

theorem fits_of_readValue {r : Reading} (hr : readValue g pos t = .ok r) :
    t = r.written ++ r.rest ∧ Spelled.Fits g (Uncut g) ⟨r.content, r.written⟩ r.rest :=
  fits_of_readContent (bareValue_append g) (uncut_bareValue g) hr

theorem readValue_of_fits {s : Spelled} {rest : Text} (hs : s.Fits g (Uncut g) rest) (hr : AtCut g rest) :
    readValue g pos (s.written ++ rest) = .ok ⟨s.content, s.written, rest⟩ :=
  readContent_of_fits (fun hv => bareValue_of_uncut hv hr) hs

/-! ## Parameters -/

theorem Follow.atCut {ss : List Segment} (hss : Follow g ss) : AtCut g (ss.flatMap Segment.text) := by
  cases hss with
  | nil => exact fun hne => absurd rfl hne
  | cons hd =>
    intro _
    rw [List.flatMap_cons, Grammar.leadingDelimiter?_eq_some.2 hd]
    rfl

theorem exists_follow_of_readParameters {whole : Text} {ps : List Parameter}
    (hr : readParameters g h whole pos t = .ok ps) :
    ∃ ss, t = ss.flatMap Segment.text ∧ Follow g ss ∧ ps = ss.map Segment.parameter := by
  fun_induction readParameters g h whole pos t generalizing ps with
  | case1 =>
    cases hr
    exact ⟨[], rfl, .nil, rfl⟩
  | case2 => contradiction
  | case3 => contradiction
  | case4 pos c t' d hd value hv ih =>
    obtain ⟨qs, hqs, rfl⟩ := Outcome.map_eq_ok.1 hr
    obtain ⟨ss, hrest, hss, rfl⟩ := ih hqs
    obtain ⟨hvalue, hfits⟩ := fits_of_readValue hv
    have hwhole : c :: t' = d ++ value.written ++ ss.flatMap Segment.text := by
      rw [List.append_assoc, ← hrest, ← hvalue]
      exact Grammar.eq_append_of_leadingDelimiter? hd
    rw [hwhole] at hd ⊢
    rw [hrest] at hfits
    exact ⟨⟨d, value.content, value.written⟩ :: ss, rfl, .cons (Grammar.leadingDelimiter?_eq_some.1 hd) hfits hss, rfl⟩

theorem readParameters_of_follow {whole : Text} {ss : List Segment} (hss : Follow g ss) (pos : Nat) :
    readParameters g h whole pos (ss.flatMap Segment.text) = .ok (ss.map Segment.parameter) := by
  induction hss generalizing pos with
  | nil => simp [readParameters]
  | @cons s ss hd hv hss ih =>
    have hd := Grammar.leadingDelimiter?_eq_some.2 hd
    obtain ⟨c, t, ht⟩ := List.exists_cons_of_ne_nil (l := s.delimiter)
      (h.delimiter_ne _ (Grammar.mem_of_leadingDelimiter? hd))
    have hcons : s.text ++ ss.flatMap Segment.text = c :: (t ++ s.value.written ++ ss.flatMap Segment.text) := by
      simp [Segment.text, ht]
    have hdrop : (s.text ++ ss.flatMap Segment.text).drop s.delimiter.length =
        s.value.written ++ ss.flatMap Segment.text := by
      rw [Segment.text, List.append_assoc, List.drop_left]
    rw [hcons] at hd hdrop
    rw [List.flatMap_cons, hcons, readParameters_cons, hd]
    simp only [hdrop, readValue_of_fits hv hss.atCut, ih, Outcome.map_ok]
    rfl

/-! ## One spelling -/

/-- What is read at one place has one content, one way of being written, and one rest. -/
theorem Spelled.eq_of_reading {read : Except Malformed Reading} {s s' : Spelled} {rest rest' : Text}
    (hs : read = .ok ⟨s.content, s.written, rest⟩) (hs' : read = .ok ⟨s'.content, s'.written, rest'⟩) :
    s = s' ∧ rest = rest' := by
  rw [hs] at hs'
  simp only [Except.ok.injEq, Reading.mk.injEq] at hs'
  obtain ⟨hcontent, hwritten, hrest⟩ := hs'
  cases s
  cases s'
  exact ⟨by rw [Spelled.mk.injEq]; exact ⟨hcontent, hwritten⟩, hrest⟩

theorem Follow.unique (hv : g.Valid) {ss ss' : List Segment} (hss : Follow g ss) (hss' : Follow g ss')
    (heq : ss.flatMap Segment.text = ss'.flatMap Segment.text) : ss = ss' := by
  have hne : ∀ {s : Segment} {t : Text}, g.Leads s.delimiter t → s.text ≠ [] := by
    intro s t hd hnil
    have hmem := Grammar.mem_of_leadingDelimiter? (Grammar.leadingDelimiter?_eq_some.2 hd)
    exact hv.delimiter_ne _ hmem (List.append_eq_nil_iff.1 hnil).1
  induction hss generalizing ss' with
  | nil =>
    cases hss' with
    | nil => rfl
    | cons hd => exact absurd (List.append_eq_nil_iff.1 heq.symm).1 (hne hd)
  | @cons s ss hd hs hss ih =>
    cases hss' with
    | nil => exact absurd (List.append_eq_nil_iff.1 heq).1 (hne hd)
    | @cons s' ss' hd' hs' hss' =>
      simp only [List.flatMap_cons] at heq
      have hdelim : s.delimiter = s'.delimiter := by
        have hlead := Grammar.leadingDelimiter?_eq_some.2 hd
        rw [heq, Grammar.leadingDelimiter?_eq_some.2 hd'] at hlead
        exact (Option.some.inj hlead).symm
      simp only [Segment.text, List.append_assoc, hdelim] at heq
      have hread : readValue g 0 _ = _ := readValue_of_fits hs hss.atCut
      have hread' : readValue g 0 _ = _ := readValue_of_fits hs' hss'.atCut
      rw [← List.append_cancel_left heq] at hread'
      obtain ⟨hvalue, hrest⟩ := Spelled.eq_of_reading hread hread'
      have hs : s = s' := by
        cases s
        cases s'
        rw [Segment.mk.injEq]
        exact ⟨hdelim, hvalue⟩
      rw [hs, ih hss' hrest]

theorem Spelling.Fits.unique (hv : g.Valid) {s s' : Spelling} (hs : s.Fits g) (hs' : s'.Fits g)
    (heq : s.text = s'.text) : s = s' := by
  have hread : readName g 0 s.text = _ := readName_of_fits hs.name
  have hread' : readName g 0 s'.text = _ := readName_of_fits hs'.name
  rw [← heq] at hread'
  obtain ⟨hname, hrest⟩ := Spelled.eq_of_reading hread hread'
  have hsegments := hs.segments.unique hv hs'.segments hrest
  cases s
  cases s'
  rw [Spelling.mk.injEq]
  exact ⟨hname, hsegments⟩

theorem readAt_eq_ok_iff_spelling {a : Term} :
    readAt g h pos t = .ok a ↔ ∃ s : Spelling, s.text = t ∧ s.Fits g ∧ s.term g = a := by
  constructor
  · intro hr
    rw [readAt] at hr
    split at hr
    · contradiction
    · next name hname =>
      obtain ⟨ps, hps, rfl⟩ := Outcome.map_eq_ok.1 hr
      obtain ⟨ht, hfits⟩ := fits_of_readName hname
      obtain ⟨ss, hrest, hss, rfl⟩ := exists_follow_of_readParameters hps
      rw [hrest] at ht hfits
      exact ⟨⟨⟨name.content, name.written⟩, ss⟩, ht.symm, ⟨hfits, hss⟩, rfl⟩
  · rintro ⟨s, rfl, ⟨hname, hss⟩, rfl⟩
    rw [readAt, Spelling.text, readName_of_fits hname]
    simp only [readParameters_of_follow hss, Outcome.map_ok]
    rfl

/-- **The reader accepts exactly the texts that have a spelling, and reads what the spelling says**; and no text
has two spellings. -/
theorem read_eq_ok_iff_spelling {g : Grammar} (hv : g.Valid) (t : Text) :
    (∀ a, read g t = .ok a ↔ ∃ s : Spelling, s.text = t ∧ s.Fits g ∧ s.term g = a) ∧
      ∀ s s' : Spelling, s.Fits g → s'.Fits g → s.text = t → s'.text = t → s = s' := by
  refine ⟨fun a => ?_, fun s s' hs hs' ht ht' => hs.unique hv hs' (ht.trans ht'.symm)⟩
  rw [read, hv.reading_eq, readFrom_eq_ok]
  exact readAt_eq_ok_iff_spelling

/-- Of two delimiters that fit, the first in the list counts and not the longer one; a delimiter inside a
verbatim span does not count. -/
theorem read_first_delimiter :
    Grammar.Valid { delimiters := [[':'], [':', ':']] } ∧
    (∃ s : Spelling, s.text = ['\x60', 'n', ':', '\x60', ':', ':', 'b'] ∧
      s.Fits { delimiters := [[':'], [':', ':']] } ∧
      s.term { delimiters := [[':'], [':', ':']] } =
        ⟨['n', ':'], [⟨[':'], []⟩, ⟨[':'], ['b']⟩], { delimiters := [[':'], [':', ':']] }⟩) ∧
    ¬ ∃ s : Spelling, s.text = ['\x60', 'n', ':', '\x60', ':', ':', 'b'] ∧
      s.Fits { delimiters := [[':'], [':', ':']] } ∧
      s.term { delimiters := [[':'], [':', ':']] } =
        ⟨['n', ':'], [⟨[':', ':'], ['b']⟩], { delimiters := [[':'], [':', ':']] }⟩ := by
  have hv : Grammar.Valid { delimiters := [[':'], [':', ':']] } := Grammar.fault?_eq_none_iff.1 rfl
  have hiff := (read_eq_ok_iff_spelling hv ['\x60', 'n', ':', '\x60', ':', ':', 'b']).1
  have hr : read { delimiters := [[':'], [':', ':']] } ['\x60', 'n', ':', '\x60', ':', ':', 'b'] =
      .ok ⟨['n', ':'], [⟨[':'], []⟩, ⟨[':'], ['b']⟩], { delimiters := [[':'], [':', ':']] }⟩ := rfl
  refine ⟨hv, (hiff _).1 hr, fun hs => ?_⟩
  have hother := (hiff _).2 hs
  rw [hr] at hother
  simp at hother

end Term
end TermTree
