/-
Reading back a term from its text, in grammars whose quotes and delimiters are single symbols. What is
restored is told by the term alone (`Restorable`): the writer must not end a verbatim span early, and a
value that it leaves bare must not be cut or taken for a span. Every term that was read from a text is
restored (`restorable_of_read`), so a term is restored exactly when it is restorable
(`read_toText_iff`).
-/
import TermTree.Proofs.Grammar.Simple
import TermTree.Term.Comparison
import TermTree.Term.Writer
import TermTree.Token

namespace TermTree

/-- A value that is read bare as a whole: no delimiter cuts it, and it does not begin like a verbatim span. -/
def Grammar.Bare (g : Grammar) (v : Text) : Prop := (∀ d ∈ g.delimiters, ¬ d <:+: v) ∧ ¬ g.quoteOpen <+: v

namespace Term

/-- What a term must be like to be read back from its text. -/
structure Restorable (a : Term) : Prop where
  /-- The name does not hold the closing quote. -/
  name : ¬ a.grammar.quoteClose <:+: a.name
  /-- The delimiters are those of the grammar. -/
  delimiter : ∀ p ∈ a.parameters, p.delimiter ∈ a.grammar.delimiters
  /-- A value that holds the closing quote can stand bare. -/
  value : ∀ p ∈ a.parameters, a.grammar.quoteClose <:+: p.value → a.grammar.Bare p.value

/-- The text `t` is empty or begins with a delimiter of one character. -/
def AtDelimiter (g : Grammar) (t : Text) : Prop := ∀ c ∈ t.head?, [c] ∈ g.delimiters

variable {g : Grammar}

/-- What is written without quotes, if it does not hold the closing quote. -/
theorem mustQuote_eq_false {v : Text} (hc : ¬ g.quoteClose <:+: v) :
    mustQuote g v = false ↔ g.Bare v ∧ (∀ x ∈ v, Token.isSeparator x = false) ∧
      ¬ g.bracketOpen <:+: v ∧ ¬ g.bracketClose <:+: v := by
  have hd : g.delimiterOccursIn v = false ↔ ∀ d ∈ g.delimiters, ¬ d <:+: v := by
    simp only [Grammar.delimiterOccursIn, List.any_eq_false, Text.occursIn_iff]
  have hs : v.any (fun c => c == ' ' || c == '\t') = false ↔ ∀ x ∈ v, Token.isSeparator x = false := by
    simp only [List.any_eq_false, Token.isSeparator, Bool.not_eq_true]
  have ho : g.quoteOpen.isPrefixOf v = false ↔ ¬ g.quoteOpen <+: v := by
    rw [← Bool.not_eq_true, List.isPrefixOf_iff_prefix]
  simp only [mustQuote, Text.occursIn_eq_false.2 hc, Bool.not_false, Bool.true_and, Bool.or_eq_false_iff, hd, hs, ho,
    Text.occursIn_eq_false, Grammar.Bare]
  constructor
  · rintro ⟨⟨⟨⟨hd, hs⟩, ho⟩, hopen⟩, hclose⟩
    exact ⟨⟨hd, ho⟩, hs, hopen, hclose⟩
  · rintro ⟨⟨hd, ho⟩, hs, hopen, hclose⟩
    exact ⟨⟨⟨⟨hd, hs⟩, ho⟩, hopen⟩, hclose⟩

theorem bare_of_not_mustQuote {v : Text} (hv : g.quoteClose <:+: v → g.Bare v) (hq : mustQuote g v = false) :
    g.Bare v := by
  by_cases hc : g.quoteClose <:+: v
  · exact hv hc
  · exact ((mustQuote_eq_false hc).1 hq).1

theorem not_infix_of_mustQuote {v : Text} (hq : mustQuote g v = true) : ¬ g.quoteClose <:+: v := by
  rw [← Text.occursIn_iff]
  intro hc
  simp [mustQuote, hc] at hq

/-! ## Reading what was written -/

section
variable (hg : g.Punctuated)
include hg

theorem absent_of_atDelimiter {t : Text} (ht : AtDelimiter g t) : g.quotedAt t = .absent := by
  obtain ⟨q, hq, -⟩ := hg.quoteOpen
  rw [Grammar.quotedAt_eq_absent_iff_head? hq]
  intro hc
  exact (hg.delimiter_ne_quote _ (ht q hc)).1 hq.symm

theorem readContent_quote {bare : Text → Text × Text} {pos : Nat} {v : Text} (t : Text)
    (hv : ¬ g.quoteClose <:+: v) : readContent g bare pos (g.quote v ++ t) = .ok ⟨v, g.quote v, t⟩ := by
  rw [readContent, hg.quotedAt_quote t hv]

theorem readName_nameText {pos : Nat} {name t : Text} (hn : ¬ g.quoteClose <:+: name) (ht : AtDelimiter g t) :
    readName g pos (nameText g name ++ t) = .ok ⟨name, nameText g name, t⟩ := by
  rw [nameText]
  split
  · next hplain =>
    have hall : ∀ c ∈ name, isPlainChar c = true := List.all_eq_true.1 hplain
    have hnot : ∀ c ∈ t.head?, isPlainChar c = false := by
      intro c hc
      obtain ⟨x, hx, hxp⟩ := hg.delimiter _ (ht c hc)
      cases hx
      exact hxp
    have habs : g.quotedAt (name ++ t) = .absent := by
      cases name with
      | nil => exact absent_of_atDelimiter hg ht
      | cons c name =>
        obtain ⟨q, hq, hqp⟩ := hg.quoteOpen
        rw [Grammar.quotedAt_eq_absent_iff_head? hq]
        simp only [List.cons_append, List.head?_cons, ne_eq, Option.some.injEq]
        rintro rfl
        rw [hall c (by simp)] at hqp
        contradiction
    obtain ⟨htake, hdrop⟩ := Text.cut_append hall hnot
    simp only [readName, readContent, habs, htake, hdrop]
  · exact readContent_quote hg t hn

theorem bareValue_append_of_free {v t : Text} (hv : ∀ d ∈ g.delimiters, ¬ d <:+: v) (ht : AtDelimiter g t) :
    bareValue g (v ++ t) = (v, t) := by
  induction v with
  | nil =>
    cases t with
    | nil => rfl
    | cons c t => simp [bareValue, hg.leadingDelimiter?_of_mem t (ht c (by simp))]
  | cons c v ih =>
    have hc : [c] ∉ g.delimiters := fun hc => hv _ hc ((List.singleton_infix_iff _ _).2 (by simp))
    have hv' : ∀ d ∈ g.delimiters, ¬ d <:+: v := fun d hd hi => hv d hd (List.infix_cons hi)
    simp [bareValue, hg.leadingDelimiter?_of_not_mem (v ++ t) hc, ih hv']

theorem readValue_bare {pos : Nat} {v t : Text} (hv : g.Bare v) (ht : AtDelimiter g t) :
    readValue g pos (v ++ t) = .ok ⟨v, v, t⟩ := by
  have habs : g.quotedAt (v ++ t) = .absent := by
    cases v with
    | nil => exact absent_of_atDelimiter hg ht
    | cons c v =>
      obtain ⟨q, hq, -⟩ := hg.quoteOpen
      have hno := hv.2
      rw [hq, List.singleton_prefix_iff_head?_eq_some] at hno
      rw [Grammar.quotedAt_eq_absent_iff_head? hq]
      exact hno
  simp only [readValue, readContent, habs, bareValue_append_of_free hg hv.1 ht]

theorem readValue_valueText {pos : Nat} {v t : Text} (hv : g.quoteClose <:+: v → g.Bare v) (ht : AtDelimiter g t) :
    readValue g pos (valueText g v ++ t) = .ok ⟨v, valueText g v, t⟩ := by
  rw [valueText]
  split
  · next hq => exact readContent_quote hg t (not_infix_of_mustQuote hq)
  · next hq => exact readValue_bare hg (bare_of_not_mustQuote hv (by simpa using hq)) ht

theorem atDelimiter_parameters {ps : List Parameter} (hd : ∀ p ∈ ps, p.delimiter ∈ g.delimiters) :
    AtDelimiter g (ps.flatMap (parameterText g)) := by
  cases ps with
  | nil => simp [AtDelimiter]
  | cons p ps =>
    obtain ⟨c, hc, -⟩ := hg.delimiter _ (hd p (by simp))
    have hmem := hd p (by simp)
    simpa [AtDelimiter, parameterText, hc] using hmem

theorem readParameters_flatMap (h : g.Valid) {whole : Text} {pos : Nat} {ps : List Parameter}
    (hd : ∀ p ∈ ps, p.delimiter ∈ g.delimiters) (hv : ∀ p ∈ ps, g.quoteClose <:+: p.value → g.Bare p.value) :
    readParameters g h whole pos (ps.flatMap (parameterText g)) = .ok ps := by
  induction ps generalizing pos with
  | nil => simp [readParameters]
  | cons p ps ih =>
    obtain ⟨c, hc, -⟩ := hg.delimiter _ (hd p (by simp))
    have hmem : [c] ∈ g.delimiters := hc ▸ hd p (by simp)
    have hd' : ∀ p ∈ ps, p.delimiter ∈ g.delimiters := fun q hq => hd q (by simp [hq])
    have ih : ∀ pos, readParameters g h whole pos (ps.flatMap (parameterText g)) = .ok ps := fun _ =>
      ih hd' fun q hq => hv q (by simp [hq])
    rw [List.flatMap_cons, parameterText, hc, List.singleton_append, List.cons_append, readParameters_cons,
      hg.leadingDelimiter?_of_mem _ hmem]
    simp only [List.length_singleton, List.drop_succ_cons, List.drop_zero]
    rw [readValue_valueText hg (hv p (by simp)) (atDelimiter_parameters hg hd')]
    simp only [ih, Outcome.map_ok, ← hc]

theorem readAt_toText (h : g.Valid) {pos : Nat} {a : Term} (ha : a.grammar = g) (hr : a.Restorable) :
    readAt g h pos a.toText = .ok a := by
  subst ha
  rw [readAt, toText, readName_nameText hg hr.name (atDelimiter_parameters hg hr.delimiter)]
  simp only [readParameters_flatMap hg h hr.delimiter hr.value, Outcome.map_ok]

end

/-! ## What can be read -/

theorem free_bareValue (g : Grammar) (h : g.Valid) (t : Text) : ∀ d ∈ g.delimiters, ¬ d <:+: (bareValue g t).1 := by
  intro d hd
  induction t with
  | nil => simpa [bareValue] using h.delimiter_ne d hd
  | cons c t ih =>
    simp only [bareValue]
    split
    · simpa using h.delimiter_ne d hd
    · next hno =>
      rw [Option.not_isSome_iff_eq_none, Grammar.leadingDelimiter?_eq_none] at hno
      rw [List.infix_cons_iff, not_or]
      refine ⟨fun hp => hno d hd (hp.trans ?_), ih⟩
      exact ⟨(bareValue g t).2, by rw [List.cons_append, bareValue_append]⟩

theorem not_infix_of_quotedAt {t body rest : Text} (h : g.Valid) (hq : g.quotedAt t = .span body rest) :
    ¬ g.quoteClose <:+: body := by
  obtain ⟨_, -, hbr⟩ := Grammar.quotedAt_eq_span.1 hq
  exact Text.not_infix_of_breakOn? h.quoteClose_ne hbr

theorem bare_of_readValue (h : g.Valid) {pos : Nat} {t : Text} {r : Reading} (hr : readValue g pos t = .ok r)
    (hc : g.quoteClose <:+: r.content) : g.Bare r.content := by
  simp only [readValue, readContent] at hr
  split at hr
  · contradiction
  · next hq =>
    cases hr
    exact absurd hc (not_infix_of_quotedAt h hq)
  · next habs =>
    cases hr
    refine ⟨free_bareValue g h t, fun hp => Grammar.quotedAt_eq_absent.1 habs (hp.trans ?_)⟩
    exact ⟨(bareValue g t).2, bareValue_append g t⟩

theorem not_infix_of_readName (hg : g.Punctuated) {pos : Nat} {t : Text} {r : Reading}
    (hr : readName g pos t = .ok r) : ¬ g.quoteClose <:+: r.content := by
  simp only [readName, readContent] at hr
  split at hr
  · contradiction
  · next hq =>
    cases hr
    exact not_infix_of_quotedAt hg.valid hq
  · cases hr
    obtain ⟨c, hc, hcp⟩ := hg.quoteClose
    rw [hc, List.singleton_infix_iff]
    intro hm
    rw [List.all_eq_true.1 List.all_takeWhile c hm] at hcp
    contradiction

theorem mem_of_readParameters {h : g.Valid} {whole : Text} {pos : Nat} {t : Text} {ps : List Parameter}
    (hr : readParameters g h whole pos t = .ok ps) :
    ∀ p ∈ ps, p.delimiter ∈ g.delimiters ∧ (g.quoteClose <:+: p.value → g.Bare p.value) := by
  fun_induction readParameters g h whole pos t generalizing ps with
  | case1 =>
    cases hr
    simp
  | case2 => contradiction
  | case3 => contradiction
  | case4 pos c t' d hd value hv ih =>
    obtain ⟨qs, hqs, rfl⟩ := Outcome.map_eq_ok.1 hr
    intro p hp
    rcases List.mem_cons.1 hp with rfl | hp
    · exact ⟨Grammar.mem_of_leadingDelimiter? hd, bare_of_readValue h hv⟩
    · exact ih hqs p hp

theorem restorable_of_readAt (hg : g.Punctuated) {h : g.Valid} {pos : Nat} {t : Text} {a : Term}
    (hr : readAt g h pos t = .ok a) : a.grammar = g ∧ a.Restorable := by
  rw [readAt] at hr
  split at hr
  · contradiction
  · next name hname =>
    obtain ⟨ps, hps, rfl⟩ := Outcome.map_eq_ok.1 hr
    have hmem := mem_of_readParameters hps
    exact ⟨rfl, not_infix_of_readName hg hname, fun p hp => (hmem p hp).1, fun p hp => (hmem p hp).2⟩

theorem restorable_of_read (hg : g.Punctuated) {t : Text} {a : Term} (hr : read g t = .ok a) :
    a.grammar = g ∧ a.Restorable := by
  obtain ⟨_, hr⟩ := read_eq_ok.1 hr
  exact restorable_of_readAt hg hr

theorem read_toText (hg : g.Punctuated) {a : Term} (ha : a.grammar = g) (hr : a.Restorable) :
    read g a.toText = .ok a :=
  read_eq_ok.2 ⟨hg.valid, readAt_toText hg hg.valid ha hr⟩

theorem Restorable.of_identical {a b : Term} (hb : b.Restorable) (hg : b.grammar = a.grammar)
    (hi : b.identical a = true) : a.Restorable := by
  simp only [identical, Bool.and_eq_true, beq_iff_eq] at hi
  obtain ⟨hname, hps⟩ := hi
  exact ⟨hg ▸ hname ▸ hb.name, hg ▸ hps ▸ hb.delimiter, hg ▸ hps ▸ hb.value⟩

/-- **A term is read back from its text exactly when it is restorable**, and every term that was read from
some text is. -/
theorem read_toText_iff {g : Grammar} (hg : g.Punctuated) :
    (∀ a : Term, a.grammar = g → ((∃ b, read g a.toText = .ok b ∧ b.identical a = true) ↔ a.Restorable)) ∧
      ∀ t a, read g t = .ok a → a.Restorable ∧ read g a.toText = .ok a := by
  constructor
  · rintro a rfl
    constructor
    · rintro ⟨b, hb, hi⟩
      obtain ⟨hbg, hbr⟩ := restorable_of_read hg hb
      exact hbr.of_identical hbg hi
    · intro ha
      exact ⟨a, read_toText hg rfl ha, by simp [identical]⟩
  · intro t a ha
    obtain ⟨hag, har⟩ := restorable_of_read hg ha
    exact ⟨har, read_toText hg hag har⟩

/-- A value that holds a verbatim span is restored; one that holds a quote and a delimiter is not. -/
theorem read_toText_quote_in_value :
    (∃ b, read {} (toText ⟨['a'], [⟨['.'], ['x', '\x60', ' ', '\x60']⟩], {}⟩) = .ok b ∧
      b.identical ⟨['a'], [⟨['.'], ['x', '\x60', ' ', '\x60']⟩], {}⟩ = true) ∧
    ¬ ∃ b, read {} (toText ⟨['a'], [⟨['.'], ['x', '\x60', '.']⟩], {}⟩) = .ok b ∧
      b.identical ⟨['a'], [⟨['.'], ['x', '\x60', '.']⟩], {}⟩ = true := by
  have hg : Grammar.Punctuated {} := Grammar.simple_default.punctuated
  constructor
  · refine ((read_toText_iff hg).1 _ rfl).2 ⟨?_, ?_, ?_⟩
    · simp [List.singleton_infix_iff]
    · simp
    · simp [Grammar.Bare, List.singleton_infix_iff, List.singleton_prefix_iff_head?_eq_some]
  · intro hb
    have hvalue := (((read_toText_iff hg).1 _ rfl).1 hb).value ⟨['.'], ['x', '\x60', '.']⟩ (by simp)
    simp [Grammar.Bare, List.singleton_infix_iff] at hvalue

end Term
end TermTree
