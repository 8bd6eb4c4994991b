/-
Grammars whose markers are single characters. In a punctuated grammar the quotes and the delimiters are; in
a simple one the brackets are too, and no two markers of different purpose are alike.
-/
import TermTree.Proofs.Grammar.Span
import TermTree.Term.Reader

namespace TermTree

/-- The text `m` is one character, and one that no plain name holds. -/
def IsSymbol (m : Text) : Prop := ∃ c, m = [c] ∧ Term.isPlainChar c = false

theorem IsSymbol.ne_nil {m : Text} (h : IsSymbol m) : m ≠ [] := by
  obtain ⟨c, rfl, -⟩ := h
  simp

namespace Grammar

/-- Quotes and delimiters are symbols, and no delimiter is a quote. -/
structure Punctuated (g : Grammar) : Prop where
  bracketOpen_ne : g.bracketOpen ≠ []
  bracketClose_ne : g.bracketClose ≠ []
  quoteOpen : IsSymbol g.quoteOpen
  quoteClose : IsSymbol g.quoteClose
  delimiters_ne : g.delimiters ≠ []
  delimiter : ∀ d ∈ g.delimiters, IsSymbol d
  delimiter_ne_quote : ∀ d ∈ g.delimiters, d ≠ g.quoteOpen ∧ d ≠ g.quoteClose

/-- All markers and delimiters are symbols and no blanks. The two brackets differ, and brackets, quotes and
delimiters have none in common; the two quotes may be the same. -/
structure Simple (g : Grammar) : Prop where
  marker : ∀ m, IsSymbol (g.markerText m)
  marker_unblank : ∀ m, ∀ c ∈ g.markerText m, Text.isBlank c = false
  delimiters_ne : g.delimiters ≠ []
  delimiter : ∀ d ∈ g.delimiters, IsSymbol d
  delimiter_unblank : ∀ d ∈ g.delimiters, ∀ c ∈ d, Text.isBlank c = false
  bracketOpen_ne_close : g.bracketOpen ≠ g.bracketClose
  bracketOpen_ne_quote : g.bracketOpen ≠ g.quoteOpen ∧ g.bracketOpen ≠ g.quoteClose
  bracketClose_ne_quote : g.bracketClose ≠ g.quoteOpen ∧ g.bracketClose ≠ g.quoteClose
  delimiter_ne_marker : ∀ d ∈ g.delimiters, ∀ m, d ≠ g.markerText m

theorem Simple.punctuated {g : Grammar} (h : g.Simple) : g.Punctuated where
  bracketOpen_ne := (h.marker .bracketOpen).ne_nil
  bracketClose_ne := (h.marker .bracketClose).ne_nil
  quoteOpen := h.marker .quoteOpen
  quoteClose := h.marker .quoteClose
  delimiters_ne := h.delimiters_ne
  delimiter := h.delimiter
  delimiter_ne_quote d hd := ⟨h.delimiter_ne_marker d hd .quoteOpen, h.delimiter_ne_marker d hd .quoteClose⟩

theorem Simple.not_isBlank {g : Grammar} (h : g.Simple) (m : Marker) {c : Char} (hc : g.markerText m = [c]) :
    Text.isBlank c = false := h.marker_unblank m c (by simp [hc])

theorem Simple.ne_of_isBlank {g : Grammar} (h : g.Simple) (m : Marker) {c x : Char} (hc : g.markerText m = [c])
    (hx : Text.isBlank x = true) : x ≠ c := by
  rintro rfl
  rw [h.not_isBlank m hc] at hx
  contradiction

theorem Simple.exists_chars {g : Grammar} (h : g.Simple) :
    ∃ o c q : Char, g.bracketOpen = [o] ∧ g.bracketClose = [c] ∧ g.quoteOpen = [q] ∧ o ≠ c ∧ o ≠ q ∧ c ≠ q := by
  obtain ⟨o, ho, -⟩ := h.marker .bracketOpen
  obtain ⟨c, hc, -⟩ := h.marker .bracketClose
  obtain ⟨q, hq, -⟩ := h.marker .quoteOpen
  simp only [markerText] at ho hc hq
  refine ⟨o, c, q, ho, hc, hq, ?_, ?_, ?_⟩
  · rintro rfl
    exact h.bracketOpen_ne_close (ho.trans hc.symm)
  · rintro rfl
    exact h.bracketOpen_ne_quote.1 (ho.trans hq.symm)
  · rintro rfl
    exact h.bracketClose_ne_quote.1 (hc.trans hq.symm)

theorem Simple.exists_quote {g : Grammar} (h : g.Simple) {o c : Char} (ho : g.bracketOpen = [o])
    (hc : g.bracketClose = [c]) : ∃ q, g.quoteOpen = [q] ∧ o ≠ c ∧ o ≠ q ∧ c ≠ q := by
  obtain ⟨o', c', q, ho', hc', hq⟩ := h.exists_chars
  cases ho.symm.trans ho'
  cases hc.symm.trans hc'
  exact ⟨q, hq⟩

theorem simple_default : Simple {} where
  marker m := by cases m <;> exact ⟨_, rfl, by decide⟩
  marker_unblank m := by cases m <;> simp [markerText] <;> decide
  delimiters_ne := by decide
  delimiter := by
    simp only [List.mem_cons, List.not_mem_nil, or_false]
    rintro d (rfl | rfl | rfl) <;> exact ⟨_, rfl, by decide⟩
  delimiter_unblank := by
    simp
    decide
  bracketOpen_ne_close := by decide
  bracketOpen_ne_quote := by decide
  bracketClose_ne_quote := by decide
  delimiter_ne_marker := by
    intro d hd m
    cases m <;> revert d <;> decide

section
variable {g : Grammar} (hg : g.Punctuated)
include hg

theorem Punctuated.valid : g.Valid where
  bracketOpen_ne := hg.bracketOpen_ne
  bracketClose_ne := hg.bracketClose_ne
  quoteOpen_ne := hg.quoteOpen.ne_nil
  quoteClose_ne := hg.quoteClose.ne_nil
  delimiters_ne := hg.delimiters_ne
  delimiter_ne d hd := (hg.delimiter d hd).ne_nil

theorem Punctuated.leadingDelimiter?_of_mem {c : Char} (t : Text) (hc : [c] ∈ g.delimiters) :
    g.leadingDelimiter? (c :: t) = some [c] := by
  cases hd : g.leadingDelimiter? (c :: t) with
  | none => exact absurd ⟨t, rfl⟩ (leadingDelimiter?_eq_none.1 hd [c] hc)
  | some d =>
    obtain ⟨x, rfl, -⟩ := hg.delimiter d (mem_of_leadingDelimiter? hd)
    have hx := List.singleton_prefix_iff_head?_eq_some.1 (prefix_of_leadingDelimiter? hd)
    simp only [List.head?_cons, Option.some.injEq] at hx
    rw [hx]

theorem Punctuated.leadingDelimiter?_of_not_mem {c : Char} (t : Text) (hc : [c] ∉ g.delimiters) :
    g.leadingDelimiter? (c :: t) = none := by
  rw [leadingDelimiter?_eq_none]
  rintro d hd hp
  obtain ⟨x, rfl, -⟩ := hg.delimiter d hd
  have hx := List.singleton_prefix_iff_head?_eq_some.1 hp
  simp only [List.head?_cons, Option.some.injEq] at hx
  exact hc (hx ▸ hd)

theorem Punctuated.quotedAt_quote {body : Text} (rest : Text) (hb : ¬ g.quoteClose <:+: body) :
    g.quotedAt (g.quote body ++ rest) = .span body rest := by
  obtain ⟨c, hc, -⟩ := hg.quoteClose
  rw [hc, List.singleton_infix_iff] at hb
  refine quotedAt_eq_span.2 ⟨body ++ [c] ++ rest, ?_, ?_⟩
  · rw [quote, hc, List.append_assoc, List.append_assoc, List.append_assoc]
    exact Text.after?_append _ _
  · rw [hc, List.append_assoc]
    exact Text.breakOn?_singleton rest hb

end

end Grammar
end TermTree
