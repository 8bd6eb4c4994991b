/-
Reading back a term from its text, in any grammar. The writer looks at one value and decides whether to quote it;
the reader goes on from a bare value to what stands behind it, and takes the first delimiter in the list that fits.
`Term.spelling` is the text of a term in its parts, so the term is read back where these parts fit
(`read_toText_of_fits`), and only there if no delimiter can continue an opening quote (`fits_of_read_toText`).

The parts need not fit, even if the term was read from a text: an empty value in front of `:` is written as
nothing, and where `::` is a delimiter too, that is what is read (`not_read_toText_empty_value`). In a grammar
that keeps its delimiters apart the parts always fit (`Spelling.Fits.respell`).
-/
import TermTree.Proofs.Term.RoundTrip
import TermTree.Proofs.Term.Spelling

namespace TermTree

/-- Quotes and delimiters of any length, such that none of them arises or is hidden at a seam. -/
structure Grammar.Separated (g : Grammar) : Prop where
  valid : g.Valid
  /-- An opening quote cannot be part of a bare name. -/
  quoteOpen : ∃ c ∈ g.quoteOpen, Term.isPlainChar c = false
  /-- A closing quote does not overlap with itself. -/
  quoteClose : Text.Borderless g.quoteClose
  /-- A delimiter ends a bare name. -/
  delimiter_plain : ∀ d ∈ g.delimiters, ∀ c ∈ d.head?, Term.isPlainChar c = false
  /-- A delimiter does not continue an opening quote. -/
  delimiter_clear : ∀ d ∈ g.delimiters, Text.ClearOf g.quoteOpen d
  /-- A delimiter does not continue a delimiter. -/
  delimiter_apart : ∀ d ∈ g.delimiters, ∀ e ∈ g.delimiters, Text.ClearOf e.tail d
  /-- No delimiter begins with another one. -/
  delimiter_eq : ∀ d ∈ g.delimiters, ∀ e ∈ g.delimiters, d <+: e → d = e

theorem Grammar.Punctuated.separated {g : Grammar} (hg : g.Punctuated) : g.Separated where
  valid := hg.valid
  quoteOpen := by
    obtain ⟨q, hq, hqp⟩ := hg.quoteOpen
    exact ⟨q, by simp [hq], hqp⟩
  quoteClose := by
    obtain ⟨q, hq, -⟩ := hg.quoteClose
    intro n hn h0
    rw [hq, List.length_singleton] at hn
    omega
  delimiter_plain d hd c hc := by
    obtain ⟨x, rfl, hx⟩ := hg.delimiter d hd
    cases hc
    exact hx
  delimiter_clear d hd := by
    obtain ⟨x, rfl, -⟩ := hg.delimiter d hd
    obtain ⟨q, hq, -⟩ := hg.quoteOpen
    refine Text.ClearOf.cons fun hm => ?_
    rw [hq, List.mem_singleton] at hm
    exact (hg.delimiter_ne_quote _ hd).1 (by rw [hq, hm])
  delimiter_apart d _ e he := by
    obtain ⟨x, rfl, -⟩ := hg.delimiter e he
    simp [Text.ClearOf]
  delimiter_eq d hd e he hp := by
    obtain ⟨x, rfl, -⟩ := hg.delimiter d hd
    obtain ⟨y, rfl, -⟩ := hg.delimiter e he
    exact hp.eq_of_length rfl

namespace Term

/-- A parameter in the parts in which it is written. -/
def segment (g : Grammar) (p : Parameter) : Segment := ⟨p.delimiter, p.value, valueText g p.value⟩

/-- A term in the parts in which it is written. -/
def spelling (a : Term) : Spelling :=
  ⟨⟨a.name, nameText a.grammar a.name⟩, a.parameters.map (segment a.grammar)⟩

variable {g : Grammar}

theorem text_segments (g : Grammar) (ps : List Parameter) :
    (ps.map (segment g)).flatMap Segment.text = ps.flatMap (parameterText g) := by
  rw [List.flatMap_map]
  rfl

theorem text_spelling (a : Term) : a.spelling.text = a.toText := by
  rw [Spelling.text, toText, spelling, text_segments]

theorem term_spelling (a : Term) : a.spelling.term a.grammar = a := by
  have hps : (a.parameters.map (segment a.grammar)).map Segment.parameter = a.parameters := by
    rw [List.map_map]
    exact List.map_id' _
  rw [Spelling.term, spelling, hps]

theorem read_toText_of_fits (hv : g.Valid) {a : Term} (ha : a.grammar = g) (hs : a.spelling.Fits g) :
    read g a.toText = .ok a := by
  subst ha
  refine read_eq_ok.2 ⟨hv, readAt_eq_ok_iff_spelling.2 ?_⟩
  exact ⟨a.spelling, text_spelling a, hs, term_spelling a⟩

/-! ## What may stand behind a value -/

/-- The text `rest` is empty or begins like some delimiter. -/
def BeginsLikeDelimiter (g : Grammar) (rest : Text) : Prop :=
  ∀ c ∈ rest.head?, ∃ d ∈ g.delimiters, c ∈ d.head?

theorem beginsLikeDelimiter_parameters (hv : g.Valid) {ps : List Parameter}
    (hd : ∀ p ∈ ps, p.delimiter ∈ g.delimiters) : BeginsLikeDelimiter g (ps.flatMap (parameterText g)) := by
  cases ps with
  | nil => simp [BeginsLikeDelimiter]
  | cons p ps =>
    intro c hc
    have hp := hd p (by simp)
    refine ⟨p.delimiter, hp, ?_⟩
    obtain ⟨x, d, hxd⟩ := List.exists_cons_of_ne_nil (hv.delimiter_ne _ hp)
    simpa [parameterText, hxd] using hc

/-- What no delimiter continues is not continued by a text that begins like one. -/
theorem BeginsLikeDelimiter.clearOf {rest marker : Text} (hr : BeginsLikeDelimiter g rest)
    (hm : ∀ d ∈ g.delimiters, Text.ClearOf marker d) : Text.ClearOf marker rest := by
  intro c hc
  obtain ⟨d, hd, hcd⟩ := hr c hc
  exact hm d hd c hcd

/-! ## Only these parts -/

theorem quote_append_ne (hv : g.Valid) {v s t : Text} (ht : Text.ClearOf g.quoteOpen t) :
    g.quote v ++ s ≠ v ++ t := by
  have hopen : ∀ n v s, v.length = n → g.quoteOpen ++ (v ++ s) ≠ v ++ t := by
    intro n
    -- the body itself begins with the opening quote, and what is left of it stands in the same way
    induction n using Nat.strong_induction_on with
    | _ n ih =>
      rintro v s rfl heq
      have hp := Text.prefix_of_prefix_append ht ⟨v ++ s, heq⟩
      obtain ⟨v, rfl⟩ := hp
      have hpos := List.length_pos_iff.2 hv.quoteOpen_ne
      simp only [List.append_assoc] at heq
      refine ih v.length ?_ v s rfl (List.append_cancel_left heq)
      rw [List.length_append]
      omega
  intro heq
  rw [Grammar.quote, List.append_assoc, List.append_assoc] at heq
  exact hopen _ v _ rfl heq

/-- Of the two ways in which something can be written, only one fits in a text. -/
theorem Spelled.Fits.written_eq (hv : g.Valid) {Bare : Text → Text → Prop} {s : Spelled} {w rest rest' : Text}
    (hs : s.Fits g Bare rest) (hw : w = g.quote s.content ∨ w = s.content) (hr : Text.ClearOf g.quoteOpen rest')
    (heq : s.written ++ rest = w ++ rest') : s.written = w := by
  rcases hs with ⟨hs, -⟩ | ⟨hopen, hs, -⟩ <;> rcases hw with rfl | rfl
  · exact hs
  · rw [hs] at heq
    exact absurd heq (quote_append_ne hv hr)
  · rw [heq, Grammar.quote, List.append_assoc, List.append_assoc] at hopen
    exact absurd (List.prefix_append _ _) hopen
  · exact hs

theorem nameText_eq (g : Grammar) (name : Text) : nameText g name = g.quote name ∨ nameText g name = name := by
  rw [nameText]
  split
  · exact .inr rfl
  · exact .inl rfl

theorem valueText_eq (g : Grammar) (v : Text) : valueText g v = g.quote v ∨ valueText g v = v := by
  rw [valueText]
  split
  · exact .inl rfl
  · exact .inr rfl

theorem Follow.mem_delimiters {ss : List Segment} (hss : Follow g ss) :
    ∀ p ∈ ss.map Segment.parameter, p.delimiter ∈ g.delimiters := by
  induction hss with
  | nil => simp
  | cons hd _ _ ih =>
    intro p hp
    rcases List.mem_cons.1 hp with rfl | hp
    · exact Grammar.mem_of_leadingDelimiter? (Grammar.leadingDelimiter?_eq_some.2 hd)
    · exact ih p hp

section
variable (hv : g.Valid) (hd : ∀ d ∈ g.delimiters, Text.ClearOf g.quoteOpen d)
include hv hd

theorem Follow.eq_segments {ss : List Segment} (hss : Follow g ss)
    (heq : ss.flatMap Segment.text = (ss.map Segment.parameter).flatMap (parameterText g)) :
    ss = (ss.map Segment.parameter).map (segment g) := by
  induction hss with
  | nil => rfl
  | @cons s ss hlead hs hss ih =>
    simp only [List.map_cons, List.flatMap_cons, Segment.text, parameterText, Segment.parameter,
      List.append_assoc] at heq
    have heq := List.append_cancel_left heq
    have hclear := (beginsLikeDelimiter_parameters hv hss.mem_delimiters).clearOf hd
    have hwritten := hs.written_eq hv (valueText_eq g s.value.content) hclear heq
    rw [hwritten] at heq
    rw [List.map_cons, List.map_cons, ← ih (List.append_cancel_left heq), segment, Segment.parameter, ← hwritten]

theorem fits_of_read_toText {a b : Term} (ha : a.grammar = g) (hb : read g a.toText = .ok b)
    (hi : b.identical a = true) : a.spelling.Fits g := by
  obtain ⟨_, hb⟩ := read_eq_ok.1 hb
  obtain ⟨⟨name, ss⟩, htext, hfits, rfl⟩ := readAt_eq_ok_iff_spelling.1 hb
  simp only [identical, Spelling.term, Bool.and_eq_true, beq_iff_eq] at hi
  obtain ⟨hname, hps⟩ := hi
  subst ha
  simp only [Spelling.text, toText, ← hname, ← hps] at htext
  have hclear := (beginsLikeDelimiter_parameters hv hfits.segments.mem_delimiters).clearOf hd
  have hwritten := hfits.name.written_eq hv (nameText_eq a.grammar name.content) hclear htext
  rw [hwritten] at htext
  have hss := hfits.segments.eq_segments hv hd (List.append_cancel_left htext)
  have hs : a.spelling = ⟨name, ss⟩ := by
    rw [spelling, ← hname, ← hps, ← hss, ← hwritten]
  rw [hs]
  exact hfits

end

/-! ## Separated grammars -/

section
variable (hg : g.Separated)
include hg

/-- No delimiter reaches from a value into a text that begins like a delimiter. -/
theorem prefix_of_beginsLikeDelimiter {d u rest : Text} (hd : d ∈ g.delimiters) (hu : u ≠ [])
    (hr : BeginsLikeDelimiter g rest) (hp : d <+: u ++ rest) : d <+: u := by
  obtain ⟨x, d', rfl⟩ := List.exists_cons_of_ne_nil (hg.valid.delimiter_ne d hd)
  obtain ⟨y, u, rfl⟩ := List.exists_cons_of_ne_nil hu
  obtain ⟨rfl, htail⟩ := List.cons_prefix_cons.1 hp
  have hclear : Text.ClearOf d' rest := hr.clearOf fun e he => hg.delimiter_apart e he (x :: d') hd
  exact List.cons_prefix_cons.2 ⟨rfl, Text.prefix_of_prefix_append hclear htail⟩

theorem not_quoteOpen_prefix_append {v rest : Text} (hr : BeginsLikeDelimiter g rest) (hv : ¬ g.quoteOpen <+: v) :
    ¬ g.quoteOpen <+: v ++ rest :=
  fun hp => hv (Text.prefix_of_prefix_append (hr.clearOf hg.delimiter_clear) hp)

/-- A delimiter counts wherever it stands, since no other one fits there. -/
theorem leads_of_mem {d : Text} (hd : d ∈ g.delimiters) (t : Text) : g.Leads d (d ++ t) := by
  cases hlead : g.leadingDelimiter? (d ++ t) with
  | none => exact absurd (List.prefix_append d t) (Grammar.leadingDelimiter?_eq_none.1 hlead d hd)
  | some e =>
    have he := Grammar.mem_of_leadingDelimiter? hlead
    have hde : e = d := by
      rcases List.prefix_or_prefix_of_prefix (Grammar.prefix_of_leadingDelimiter? hlead) (List.prefix_append d t) with
        hp | hp
      · exact hg.delimiter_eq e he d hd hp
      · exact (hg.delimiter_eq d hd e he hp).symm
    rw [hde] at hlead
    exact Grammar.leadingDelimiter?_eq_some.1 hlead

theorem fits_nameText {s : Spelled} {rest rest' : Text} (hs : s.Fits g LongestRun rest)
    (hr : BeginsLikeDelimiter g rest') : Spelled.Fits g LongestRun ⟨s.content, nameText g s.content⟩ rest' := by
  rw [nameText]
  split
  · next hplain =>
    have hall : ∀ c ∈ s.content, isPlainChar c = true := List.all_eq_true.1 hplain
    refine .inr ⟨?_, rfl, longestRun_iff.2 (Text.cut_append hall fun c hc => ?_)⟩
    · refine not_quoteOpen_prefix_append hg hr fun hp => ?_
      obtain ⟨c, hc, hcp⟩ := hg.quoteOpen
      rw [hall c (hp.subset hc)] at hcp
      contradiction
    · obtain ⟨d, hd, hcd⟩ := hr c hc
      exact hg.delimiter_plain d hd c hcd
  · next hnot =>
    refine .inl ⟨rfl, ?_⟩
    rcases hs with ⟨-, hfirst⟩ | ⟨-, -, hrun⟩
    · exact hfirst
    · exact absurd (List.all_eq_true.2 hrun.plain) hnot

theorem bare_of_fits {s : Spelled} {rest : Text} (hs : s.Fits g (Uncut g) rest) (hc : g.quoteClose <:+: s.content) :
    g.Bare s.content := by
  rcases hs with ⟨-, hfirst⟩ | ⟨hopen, hw, huncut⟩
  · exact absurd hc (hfirst.not_infix hg.valid.quoteClose_ne)
  · constructor
    · rintro d hd ⟨s', u, hdu⟩
      refine huncut s' (d ++ u) (by rw [← hdu, List.append_assoc]) ?_ d hd ⟨u ++ rest, by simp⟩
      simp [hg.valid.delimiter_ne d hd]
    · rw [hw] at hopen
      exact fun hp => hopen (hp.trans (List.prefix_append _ _))

/-- A value that fits somewhere fits, as the writer writes it, in front of any delimiter. -/
theorem fits_valueText {s : Spelled} {rest rest' : Text} (hs : s.Fits g (Uncut g) rest)
    (hr : BeginsLikeDelimiter g rest') : Spelled.Fits g (Uncut g) ⟨s.content, valueText g s.content⟩ rest' := by
  rw [valueText]
  split
  · next hq =>
    refine .inl ⟨rfl, ?_⟩
    exact hg.quoteClose.firstAtEnd (not_infix_of_mustQuote hq)
  · next hq =>
    obtain ⟨hfree, hopen⟩ := bare_of_not_mustQuote (bare_of_fits hg hs) (by simpa using hq)
    refine .inr ⟨not_quoteOpen_prefix_append hg hr hopen, rfl, fun s' u hsu hu d hd hp => ?_⟩
    have hpu := prefix_of_beginsLikeDelimiter hg hd hu hr hp
    have hu : u <:+: s.content := hsu ▸ (List.suffix_append s' u).isInfix
    exact hfree d hd (hpu.isInfix.trans hu)

theorem Follow.respell {ss : List Segment} (hss : Follow g ss) :
    Follow g ((ss.map Segment.parameter).map (segment g)) := by
  induction hss with
  | nil => exact .nil
  | @cons s ss hlead hs hss ih =>
    have hmem := Grammar.mem_of_leadingDelimiter? (Grammar.leadingDelimiter?_eq_some.2 hlead)
    refine .cons ?_ (fits_valueText hg hs ?_) ih
    · rw [Segment.text, List.append_assoc]
      exact leads_of_mem hg hmem _
    · rw [text_segments]
      exact beginsLikeDelimiter_parameters hg.valid hss.mem_delimiters

theorem Spelling.Fits.respell {s : Spelling} (hs : s.Fits g) : (s.term g).spelling.Fits g := by
  refine ⟨fits_nameText hg hs.name ?_, hs.segments.respell hg⟩
  exact text_segments g _ ▸ beginsLikeDelimiter_parameters hg.valid hs.segments.mem_delimiters

theorem read_toText_of_separated {t : Text} {a : Term} (hr : read g t = .ok a) : read g a.toText = .ok a := by
  obtain ⟨_, hr⟩ := read_eq_ok.1 hr
  obtain ⟨s, -, hs, rfl⟩ := readAt_eq_ok_iff_spelling.1 hr
  exact read_toText_of_fits hg.valid rfl (hs.respell hg)

end

/-- **A term is read back from its text if the parts in which it is written fit.** Where no delimiter continues an
opening quote this is the only way, and where delimiters and quotes are separated it is the case for every term
that was read from a text. -/
theorem read_toText_iff_fits {g : Grammar} (hv : g.Valid) :
    (∀ a : Term, a.grammar = g → a.spelling.Fits g → read g a.toText = .ok a) ∧
      ((∀ d ∈ g.delimiters, Text.ClearOf g.quoteOpen d) → ∀ a : Term, a.grammar = g →
        ((∃ b, read g a.toText = .ok b ∧ b.identical a = true) ↔ a.spelling.Fits g)) ∧
      (g.Separated → ∀ t a, read g t = .ok a → read g a.toText = .ok a) := by
  refine ⟨fun a => read_toText_of_fits hv, fun hd a ha => ⟨?_, fun hs => ?_⟩, ?_⟩
  · rintro ⟨b, hb, hi⟩
    exact fits_of_read_toText hv hd ha hb hi
  · exact ⟨a, read_toText_of_fits hv ha hs, by simp [identical]⟩
  · exact fun hg t a => read_toText_of_separated hg

/-- With quotes and delimiters of two characters a term is read back that had to be quoted. Where one delimiter
begins like another one, a term fits whose values are not empty, and one with an empty value does not. -/
theorem read_toText_comment_quotes :
    (read { quoteOpen := ['/', '*'], quoteClose := ['*', '/'], delimiters := [['=', '>'], ['~', '>']] }
        (toText ⟨['a'], [⟨['~', '>'], ['x', ' ', '=']⟩],
          { quoteOpen := ['/', '*'], quoteClose := ['*', '/'], delimiters := [['=', '>'], ['~', '>']] }⟩) =
      .ok ⟨['a'], [⟨['~', '>'], ['x', ' ', '=']⟩],
        { quoteOpen := ['/', '*'], quoteClose := ['*', '/'], delimiters := [['=', '>'], ['~', '>']] }⟩) ∧
    (spelling ⟨['a'], [⟨[':'], ['b']⟩, ⟨[':', ':'], []⟩], { delimiters := [[':', ':'], [':']] }⟩).Fits
      { delimiters := [[':', ':'], [':']] } ∧
    ¬ (spelling ⟨['a'], [⟨[':'], []⟩, ⟨[':'], ['b']⟩], { delimiters := [[':', ':'], [':']] }⟩).Fits
      { delimiters := [[':', ':'], [':']] } := by
  refine ⟨?_, ?_⟩
  · have hv : Grammar.Valid
        { quoteOpen := ['/', '*'], quoteClose := ['*', '/'], delimiters := [['=', '>'], ['~', '>']] } :=
      Grammar.fault?_eq_none_iff.1 rfl
    refine (read_toText_iff_fits hv).2.2 ⟨hv, ?_, ?_, ?_, ?_, ?_, ?_⟩ ['a', '~', '>', 'x', ' ', '='] _ rfl
    · exact ⟨'/', by simp, by decide⟩
    · unfold Text.Borderless
      decide
    · simp
      decide
    · simp [Text.ClearOf]
    · simp [Text.ClearOf]
    · simp
  · have hv : Grammar.Valid { delimiters := [[':', ':'], [':']] } := Grammar.fault?_eq_none_iff.1 rfl
    have hiff := (read_toText_iff_fits hv).2.1 (by simp [Text.ClearOf])
    refine ⟨(hiff _ rfl).1 ⟨⟨['a'], [⟨[':'], ['b']⟩, ⟨[':', ':'], []⟩], _⟩, rfl, rfl⟩, fun hs => ?_⟩
    obtain ⟨b, hb, hi⟩ := (hiff _ rfl).2 hs
    have hread : read { delimiters := [[':', ':'], [':']] } (toText ⟨['a'], [⟨[':'], []⟩, ⟨[':'], ['b']⟩],
        { delimiters := [[':', ':'], [':']] }⟩) =
      .ok ⟨['a'], [⟨[':', ':'], ['b']⟩], { delimiters := [[':', ':'], [':']] }⟩ := rfl
    rw [hread] at hb
    cases hb
    simp [identical] at hi

/-- An empty value is written as nothing, even where the delimiter in front of it and the delimiter behind it are
read as one. -/
theorem not_read_toText_empty_value :
    ∃ a, read { delimiters := [[':', ':'], [':']] } ['a', ':', '`', '`', ':', 'b'] = .ok a ∧
      ∃ b, read { delimiters := [[':', ':'], [':']] } a.toText = .ok b ∧ b.identical a = false :=
  ⟨⟨['a'], [⟨[':'], []⟩, ⟨[':'], ['b']⟩], { delimiters := [[':', ':'], [':']] }⟩, rfl,
    ⟨['a'], [⟨[':', ':'], ['b']⟩], { delimiters := [[':', ':'], [':']] }⟩, rfl, rfl⟩

end Term
end TermTree
