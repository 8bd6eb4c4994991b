/-
Reading back a tree from its text. Where a term is tidy, what its text shows outside verbatim spans is
neither a separator nor a bracket, so it reads as one term on its own and inside any groups; and its text
does not end in a blank that trimming would take. A tree of tidy terms is therefore legible
(`legible_of_tidy`), and is read back from its text (`read_toText_of_tidy`).
-/
import Mathlib.Algebra.Group.Nat.Defs
import TermTree.Proofs.Token.Long
import TermTree.Proofs.Tree.Drawing
import TermTree.Proofs.Tree.Legible
import TermTree.Proofs.Tree.Told
import TermTree.Tree.Comparison

namespace TermTree

/-- What a term must be like to be read back from its text within a tree. -/
structure Term.Tidy (a : Term) : Prop where
  /-- The name does not hold the closing quote. -/
  name : ¬ a.grammar.quoteClose <:+: a.name
  /-- The term does not consist of an empty name alone. -/
  written : ¬ (a.name = [] ∧ a.parameters = [])
  /-- The delimiters are those of the grammar. -/
  delimiter : ∀ p ∈ a.parameters, p.delimiter ∈ a.grammar.delimiters
  /-- The values hold no quotes. -/
  value : ∀ p ∈ a.parameters, ¬ a.grammar.quoteOpen <:+: p.value ∧ ¬ a.grammar.quoteClose <:+: p.value
  /-- The last value does not end in a blank, except in a separator. -/
  last : ∀ p ∈ a.parameters.getLast?, ∀ c ∈ p.value.getLast?, Text.isBlank c = true → Token.isSeparator c = true

/-- All spans of `t` are closed, and neither separators nor brackets stand outside them. -/
def Grammar.Unmarked (g : Grammar) (t : Text) : Prop :=
  ∃ e, g.Exposes t e ∧ ∀ x ∈ e, Token.isSeparator x = false ∧ [x] ≠ g.bracketOpen ∧ [x] ≠ g.bracketClose

theorem Term.Tidy.restorable {a : Term} (ha : a.Tidy) : a.Restorable :=
  ⟨ha.name, ha.delimiter, fun p hp hc => absurd hc (ha.value p hp).2⟩

namespace Grammar
variable {g : Grammar} (hg : g.Simple)
include hg

theorem Unmarked.append {s t : Text} (hs : g.Unmarked s) (ht : g.Unmarked t) : g.Unmarked (s ++ t) := by
  obtain ⟨e, he, hxe⟩ := hs
  obtain ⟨f, hf, hxf⟩ := ht
  obtain ⟨q, hq, -⟩ := hg.punctuated.quoteOpen
  have hlen : g.quoteOpen.length = 1 := congrArg List.length hq
  refine ⟨e ++ f, he.append hlen hf, fun x hx => ?_⟩
  exact (List.mem_append.1 hx).elim (hxe x) (hxf x)

theorem Unmarked.quote {body : Text} (hb : ¬ g.quoteClose <:+: body) : g.Unmarked (g.quote body) := by
  have hspan := hg.punctuated.quotedAt_quote [] hb
  rw [List.append_nil] at hspan
  exact ⟨[], .quote hspan, by simp⟩

theorem Unmarked.of_plain {t : Text} (ht : ∀ x ∈ t, Term.isPlainChar x = true) : g.Unmarked t := by
  have hne : ∀ m, ∀ x ∈ t, [x] ≠ g.markerText m := by
    intro m x hx he
    obtain ⟨y, hy, hyp⟩ := hg.marker m
    cases he.trans hy
    rw [ht x hx] at hyp
    contradiction
  obtain ⟨q, hq, -⟩ := hg.punctuated.quoteOpen
  refine ⟨t, .of_not_mem hq fun hm => hne .quoteOpen q hm hq.symm, fun x hx => ⟨?_, ?_, ?_⟩⟩
  · exact Token.isSeparator_of_not_isBlank (Term.not_isBlank_of_isPlainChar (ht x hx))
  · exact hne .bracketOpen x hx
  · exact hne .bracketClose x hx

theorem Unmarked.delimiter {d : Text} (hd : d ∈ g.delimiters) : g.Unmarked d := by
  obtain ⟨x, rfl, -⟩ := hg.delimiter d hd
  have hne := hg.delimiter_ne_marker _ hd
  obtain ⟨q, hq, -⟩ := hg.punctuated.quoteOpen
  have hqx : q ∉ [x] := by
    intro hm
    rw [List.mem_singleton.1 hm] at hq
    exact hne .quoteOpen hq.symm
  refine ⟨[x], .of_not_mem hq hqx, fun y hy => ?_⟩
  obtain rfl := List.mem_singleton.1 hy
  refine ⟨?_, hne .bracketOpen, hne .bracketClose⟩
  exact Token.isSeparator_of_not_isBlank (hg.delimiter_unblank _ hd y hy)

theorem Unmarked.value {v : Text} (hv : ¬ g.quoteOpen <:+: v ∧ ¬ g.quoteClose <:+: v) :
    g.Unmarked (Term.valueText g v) := by
  rw [Term.valueText]
  split
  · exact Unmarked.quote hg hv.2
  · next hno =>
    obtain ⟨-, hsep, hopen, hclose⟩ := (Term.mustQuote_eq_false hv.2).1 (by simpa using hno)
    obtain ⟨q, hq, -⟩ := hg.punctuated.quoteOpen
    have hqv : q ∉ v := by
      rw [hq, List.singleton_infix_iff] at hv
      exact hv.1
    refine ⟨v, .of_not_mem hq hqv, fun x hx => ⟨hsep x hx, ?_, ?_⟩⟩
    · intro he
      exact hopen (he ▸ (List.singleton_infix_iff _ _).2 hx)
    · intro he
      exact hclose (he ▸ (List.singleton_infix_iff _ _).2 hx)

end Grammar

namespace Term
variable {g : Grammar} (hg : g.Simple)
include hg

theorem unmarked_toText {a : Term} (ha : a.grammar = g) (ht : a.Tidy) : g.Unmarked a.toText := by
  subst ha
  have hname : a.grammar.Unmarked (nameText a.grammar a.name) := by
    rw [nameText]
    split
    · next hplain => exact .of_plain hg (List.all_eq_true.1 hplain)
    · exact .quote hg ht.name
  have hparams : ∀ ps : List Parameter, (∀ p ∈ ps, p ∈ a.parameters) →
      a.grammar.Unmarked (ps.flatMap (parameterText a.grammar)) := by
    intro ps hps
    induction ps with
    | nil => exact ⟨[], .nil, by simp⟩
    | cons p ps ih =>
      have hp := hps p (by simp)
      rw [List.flatMap_cons, parameterText]
      exact .append hg (.append hg (.delimiter hg (ht.delimiter p hp)) (.value hg (ht.value p hp)))
        (ih fun q hq => hps q (by simp [hq]))
  exact .append hg hname (hparams _ fun p hp => hp)

theorem toText_ne_nil {a : Term} (ha : a.grammar = g) (ht : a.Tidy) : a.toText ≠ [] := by
  subst ha
  exact fun hnil => ht.written (toText_eq_nil hg.punctuated.valid rfl ht.delimiter hnil)

theorem getLast?_quote {body : Text} {x : Char} (hx : x ∈ (g.quote body).getLast?) : Text.isBlank x = false := by
  obtain ⟨c, hc, -⟩ := hg.punctuated.quoteClose
  rw [Grammar.quote, hc, List.getLast?_concat] at hx
  cases hx
  exact hg.not_isBlank .quoteClose hc

/-- The text of a term does not end in a blank, unless its last value does. -/
theorem getLast?_toText {a : Term} (ha : a.grammar = g) (ht : a.Tidy) {x : Char} (hx : x ∈ a.toText.getLast?) :
    Text.isBlank x = false := by
  subst ha
  rcases List.eq_nil_or_concat a.parameters with hps | ⟨ps, p, hps⟩
  · rw [toText, hps, List.flatMap_nil, List.append_nil, nameText] at hx
    split at hx
    · next hplain =>
      exact not_isBlank_of_isPlainChar (List.all_eq_true.1 hplain x (List.mem_of_getLast? hx))
    · exact getLast?_quote hg hx
  · have hp : p ∈ a.parameters := by simp [hps]
    have hlast := ht.last p (by simp [hps])
    have hblank := hg.delimiter_unblank _ (ht.delimiter p hp)
    obtain ⟨d, hd, -⟩ := hg.delimiter _ (ht.delimiter p hp)
    rw [hd] at hblank
    have hend : x ∈ (valueText a.grammar p.value).getLast? ∨ x = d := by
      rw [toText, hps, List.concat_eq_append, List.flatMap_append, List.flatMap_singleton, parameterText, hd,
        List.getLast?_append, List.getLast?_append, List.getLast?_append] at hx
      cases hv : (valueText a.grammar p.value).getLast? with
      | none => exact .inr (by simpa [hv, eq_comm] using hx)
      | some y => exact .inl (by simpa [hv] using hx)
    rcases hend with hv | rfl
    · rw [valueText] at hv
      split at hv
      · exact getLast?_quote hg hv
      · next hno =>
        obtain ⟨-, hsep, -⟩ := (mustQuote_eq_false (ht.value p hp).2).1 (by simpa using hno)
        rw [← Bool.not_eq_true]
        intro hb
        have hx := hlast x hv hb
        rw [hsep x (List.mem_of_getLast? hv)] at hx
        contradiction
    · exact hblank x (by simp)

end Term

namespace Tree
variable {g : Grammar} {o c : Char}

theorem closes_of_unmarked (ho : g.bracketOpen = [o]) (hc : g.bracketClose = [c]) {t : Text} (ht : g.Unmarked t) :
    g.Closes o c 0 t := by
  obtain ⟨e, he, hx⟩ := ht
  refine ⟨e, he, .of_not_mem (fun hm => ?_) (fun hm => ?_)⟩
  · exact (hx o hm).2.1 ho.symm
  · exact (hx c hm).2.2 hc.symm

theorem getLast?_joinWith {ts : List Text} (hts : ∀ t ∈ ts, t ≠ [] ∧ ∀ x ∈ t.getLast?, Text.isBlank x = false) :
    ∀ x ∈ (Text.joinWith [' '] ts).getLast?, Text.isBlank x = false := by
  induction ts with
  | nil => simp [Text.joinWith]
  | cons t ts ih =>
    have ht := hts t (by simp)
    cases ts with
    | nil => exact ht.2
    | cons u ts =>
      have hts' : ∀ v ∈ u :: ts, v ≠ [] ∧ _ := fun v hv => hts v (List.mem_cons_of_mem t hv)
      have hne : Text.joinWith [' '] (u :: ts) ≠ [] := by
        cases ts <;> simp [Text.joinWith, (hts' u (by simp)).1]
      intro x hx
      rw [Text.joinWith, List.getLast?_append, List.getLast?_eq_some_getLast hne, Option.some_or,
        ← List.getLast?_eq_some_getLast hne] at hx
      exact ih hts' x hx

section
variable (hg : g.Simple) (ho : g.bracketOpen = [o]) (hc : g.bracketClose = [c])
include hg ho hc

theorem closes_space : g.Closes o c 0 [' '] := by
  have hne : ∀ m {x : Char}, g.markerText m = [x] → x ∉ [' '] := by
    intro m x hx hm
    exact hg.ne_of_isBlank m hx (by decide) (List.mem_singleton.1 hm).symm
  obtain ⟨q, hq, -⟩ := hg.punctuated.quoteOpen
  exact ⟨[' '], .of_not_mem hq (hne .quoteOpen hq), .of_not_mem (hne .bracketOpen ho) (hne .bracketClose hc)⟩

theorem closes_joinWith {ts : List Text} (hts : ∀ t ∈ ts, g.Closes o c 0 t) :
    g.Closes o c 0 (Text.joinWith [' '] ts) := by
  obtain ⟨q, hq, -⟩ := hg.punctuated.quoteOpen
  have hlen : g.quoteOpen.length = 1 := congrArg List.length hq
  induction ts with
  | nil => exact ⟨[], .nil, Text.Nests.nil_iff.2 rfl⟩
  | cons t ts ih =>
    have ht := hts t (by simp)
    cases ts with
    | nil => exact ht
    | cons u ts => exact (ht.append hlen (closes_space hg ho hc)).append hlen (ih fun v hv => hts v (by simp [hv]))

theorem closes_enclosed {t : Text} (ht : g.Closes o c 0 t) : g.Closes o c 0 (g.bracketOpen ++ t ++ g.bracketClose) := by
  obtain ⟨e, he, hn⟩ := ht
  obtain ⟨q, hq, hoc, hoq, hcq⟩ := hg.exists_quote ho hc
  have hlen : g.quoteOpen.length = 1 := congrArg List.length hq
  have hopen : g.Exposes [o] [o] := .of_not_mem hq (by simpa using hoq.symm)
  have hclose : g.Exposes [c] [c] := .of_not_mem hq (by simpa using hcq.symm)
  rw [ho, hc]
  exact ⟨[o] ++ e ++ [c], (hopen.append hlen he).append hlen hclose, hn.enclose hoc⟩

/-- A tree of tidy terms is legible, and its text is balanced. -/
theorem legible_of_tidy {n : Tree Term} (hu : Uniform g n) (ht : ∀ a ∈ n.leaves, a.Tidy) :
    Legible g n ∧ g.Closes o c 0 n.termText ∧ piece g n ≠ [] ∧
      ∀ x ∈ (piece g n).getLast?, Text.isBlank x = false := by
  induction n using induction with
  | leaf g' a =>
    cases hu with | leaf ha =>
    have hta := ht a (by simp)
    have hunm := Term.unmarked_toText hg ha hta
    obtain ⟨e, he, hx⟩ := id hunm
    rw [piece_leaf, termText_leaf]
    exact ⟨.leaf (Term.toText_ne_nil hg ha hta) ⟨e, he, fun x hxe => (hx x hxe).1⟩, closes_of_unmarked ho hc hunm,
      Term.toText_ne_nil hg ha hta, fun x => Term.getLast?_toText hg ha hta⟩
  | group g' cs ih =>
    cases hu with | group hu =>
    have ih := fun c hcs => ih c hcs (hu c hcs) fun a ha => ht a (by simpa using ⟨c, hcs, ha⟩)
    have hpieces : ∀ t ∈ cs.map (piece g), g.Closes o c 0 t := by
      intro t hmem
      obtain ⟨d, hd, rfl⟩ := List.mem_map.1 hmem
      have hcl := (ih d hd).2.1
      cases d with
      | leaf g' a => rwa [piece_leaf, ← termText_leaf g' a]
      | group g' ds => exact closes_enclosed hg ho hc hcl
    have hends : ∀ t ∈ cs.map (piece g), t ≠ [] ∧ ∀ x ∈ t.getLast?, Text.isBlank x = false := by
      intro t hmem
      obtain ⟨d, hd, rfl⟩ := List.mem_map.1 hmem
      exact (ih d hd).2.2
    have hclose := closes_joinWith hg ho hc hpieces
    have hlast := getLast?_joinWith hends
    rw [← termText_group] at hclose hlast
    refine ⟨.group (fun d hd => (ih d hd).1) (fun d hd _ => ?_) hlast, hclose, ?_, ?_⟩
    · exact ⟨o, c, ho, hc, (ih d hd).2.1⟩
    · simp [piece_group, hg.punctuated.bracketOpen_ne]
    · intro x hx
      rw [piece_group, hc, List.getLast?_concat] at hx
      cases hx
      exact hg.not_isBlank .bracketClose hc

end

/-! ## Trees of occurrences -/

theorem shape_forget (n : Tree Occurrence) : n.forget.shape = n.shape := by
  cases n <;> simp [shape]

theorem toText_forget (n : Tree Occurrence) : n.forget.termText = n.toText := by
  induction n using induction with
  | leaf g a => simp [termText, toText, textWith]
  | group g cs ih =>
    have hcs : ∀ c ∈ cs, enclose g c.forget.shape c.forget.termText = enclose g c.shape c.toText := by
      intro c hc
      rw [shape_forget, ih c hc]
    rw [forget_group, termText_group, List.map_map, toText, textWith]
    exact congrArg (Text.joinWith [' ']) (List.map_congr_left hcs)

theorem skeleton_forget (n : Tree Occurrence) : n.forget.skeleton = n.skeleton := skeleton_map _ n

theorem identicalLeaves_self (n : Tree Term) : identicalLeaves n n = true := by
  rw [identicalLeaves]
  generalize n.leaves = as
  induction as with
  | nil => rfl
  | cons a as ih => simp [List.isEqv, Term.identical, ih]

/-- **A group of tidy terms is read back from its text**, if each place of the text has an offset: nested in the same
way, with the same terms in its leaves, and with the grammar it was written in everywhere. -/
theorem read_toText_of_tidy {g : Grammar} (hg : g.Simple) {n : Tree Occurrence} (hs : n.shape = .group)
    (hu : Uniform g n.forget) (ht : ∀ a ∈ n.leaves, a.term.Tidy) (hsize : Text.byteSize n.toText < 2 ^ 32) :
    ∃ m, read g n.toText = .ok m ∧ m.skeleton = n.skeleton ∧ identicalLeaves m n.forget = true ∧ Uniform g m := by
  obtain ⟨o, c, q, ho, hc, -⟩ := hg.exists_chars
  have hleaves : ∀ a ∈ n.forget.leaves, a.Tidy := by
    intro a ha
    rw [forget, leaves_map, List.mem_map] at ha
    obtain ⟨b, hb, rfl⟩ := ha
    exact ht b hb
  have hlegible := (legible_of_tidy hg ho hc hu hleaves).1
  have hread := readAt_termText (h := hg.punctuated.valid) hg n.forget hu (fun a ha => (hleaves a ha).restorable)
    hlegible (by rwa [shape_forget]) 0
  rw [toText_forget] at hread
  refine ⟨n.forget, ?_, skeleton_forget n, identicalLeaves_self _, hu⟩
  rw [read_eq hg.punctuated.valid hsize, hread, Outcome.mapError_ok]

/-- A value with a blank and a bracket in it, an empty group, and a quoted name inside a group. -/
theorem read_toText_nested :
    ∃ m, read {} ['a', '.', '\x60', 'x', ' ', '\x7b', '\x60', ' ', '\x7b', '\x7d', ' ', '\x7b', '\x60', 'p', ' ', '\x60', '\x7d'] =
        .ok m ∧
      m.skeleton = group {} [leaf {} (), group {} [], group {} [leaf {} ()]] ∧ Uniform {} m := by
  have hwritten : toText (group {} [leaf {} ⟨0, ⟨['a'], [⟨['.'], ['x', ' ', '\x7b']⟩], {}⟩⟩, group {} [],
      group {} [leaf {} ⟨1, ⟨['p', ' '], [], {}⟩⟩]]) =
      ['a', '.', '\x60', 'x', ' ', '\x7b', '\x60', ' ', '\x7b', '\x7d', ' ', '\x7b', '\x60', 'p', ' ', '\x60', '\x7d'] := by
    simp [toText, textWith]
    decide
  obtain ⟨m, hm, hs, -, hu⟩ := read_toText_of_tidy Grammar.simple_default
    (n := group {} [leaf {} ⟨0, ⟨['a'], [⟨['.'], ['x', ' ', '\x7b']⟩], {}⟩⟩, group {} [],
      group {} [leaf {} ⟨1, ⟨['p', ' '], [], {}⟩⟩]]) rfl
    (by
      simp only [forget_group, forget_leaf, List.map_cons, List.map_nil]
      refine .group ?_
      simp only [List.mem_cons, List.not_mem_nil, or_false]
      rintro c (rfl | rfl | rfl)
      · exact .leaf rfl
      · exact .group (by simp)
      · refine .group fun c hc => ?_
        rw [List.mem_singleton.1 hc]
        exact .leaf rfl)
    (by
      simp only [leaves_group, List.flatMap_cons, leaves_leaf, List.flatMap_nil, List.append_nil, List.cons_append,
        List.nil_append, List.mem_cons, List.not_mem_nil, or_false]
      rintro a (rfl | rfl)
      · constructor <;> simp [List.singleton_infix_iff]
        decide
      · constructor <;> simp [List.singleton_infix_iff])
    (by
      rw [hwritten]
      decide)
  rw [hwritten] at hm
  refine ⟨m, hm, ?_, hu⟩
  rw [hs]
  simp [skeleton]

/-- A letter and a word that has just as many places as there are offsets. -/
def longPair : Tree Occurrence := group {} [leaf {} ⟨0, ⟨['b'], [], {}⟩⟩, leaf {} ⟨1, ⟨Text.longWord, [], {}⟩⟩]

theorem toText_longWord : Term.toText ⟨Text.longWord, [], {}⟩ = Text.longWord := by
  have hplain : Text.longWord.all Term.isPlainChar = true := by
    rw [List.all_eq_true]
    intro c hc
    rw [Text.eq_of_mem_longWord hc]
    rfl
  rw [Term.toText, Term.nameText, if_pos hplain, List.flatMap_nil, List.append_nil]

theorem tidy_longWord : Term.Tidy ⟨Text.longWord, [], {}⟩ := by
  constructor <;> simp [List.singleton_infix_iff, Text.longWord_ne_nil]
  exact fun hm => absurd (Text.eq_of_mem_longWord hm) (by decide)

theorem toText_longPair : longPair.toText = ['b', ' '] ++ Text.longWord := by
  simp only [longPair, toText, textWith, List.map_cons, List.map_nil, enclose, shape, Text.joinWith, toText_longWord]
  rfl

/-- **In a text without an offset for each place the last term may be lost**: a group of tidy terms that is refused. -/
theorem not_read_toText_longPair :
    Grammar.Simple {} ∧ longPair.shape = .group ∧ Uniform {} longPair.forget ∧ (∀ a ∈ longPair.leaves, a.term.Tidy) ∧
      read {} longPair.toText = .error (.noOffset .reversed) := by
  refine ⟨Grammar.simple_default, rfl, ?_, ?_, ?_⟩
  · rw [longPair, forget_group]
    refine .group fun c hc => ?_
    rcases List.mem_pair.1 hc with rfl | rfl <;> (rw [forget_leaf]; exact .leaf rfl)
  · intro a ha
    simp only [longPair, leaves_group, List.flatMap_cons, leaves_leaf, List.flatMap_nil, List.append_nil,
      List.singleton_append] at ha
    rcases List.mem_pair.1 ha with rfl | rfl
    · constructor <;> simp [List.singleton_infix_iff]
    · exact tidy_longWord
  · rw [toText_longPair]
    exact read_eq_error_of_ofText Token.ofText_behind_longWord

end Tree
end TermTree
