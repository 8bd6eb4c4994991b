/-
A grammar says which markers a text is read with: two brackets around groups, two quotes around
verbatim spans, and the delimiters that tag the parameters of a term, in order of priority.

A grammar is usable (`Valid`) when no marker is empty and there is at least one delimiter: an empty
marker would be found everywhere, and a reader would not move. `fault?` names the first thing that
is wrong, and finds nothing exactly in a usable grammar (`fault?_eq_none_iff`).
-/
import TermTree.Text

namespace TermTree

/-- The four markers of a grammar. -/
inductive Marker where
  | bracketOpen
  | bracketClose
  | quoteOpen
  | quoteClose
  deriving DecidableEq, Repr

/-- What can make a grammar unusable. -/
inductive GrammarFault where
  | emptyMarker (marker : Marker)
  | noDelimiters
  | emptyDelimiter
  deriving DecidableEq, Repr

/-- The markers and delimiters of a notation for terms. Where more than one delimiter fits, the one
that is first in the list is taken, not the longest. -/
structure Grammar where
  /-- Opens a group. -/
  bracketOpen : Text := ['\x7b']
  /-- Closes a group. -/
  bracketClose : Text := ['\x7d']
  /-- Opens a verbatim span. -/
  quoteOpen : Text := ['\x60']
  /-- Closes a verbatim span. -/
  quoteClose : Text := ['\x60']
  /-- Tag the parameters, highest priority first. -/
  delimiters : List Text := [['.'], [':'], ['@']]
  deriving DecidableEq, Repr, Inhabited

/-- What stands at a place where a verbatim span may begin. -/
inductive QuoteReading where
  /-- No span opens here. -/
  | absent
  /-- A span opens here and is never closed. -/
  | unclosed
  /-- A span with this body, and the text behind its closing marker. -/
  | span (body rest : Text)
  deriving DecidableEq, Repr

namespace Grammar

/-- The text of a marker. -/
def markerText (g : Grammar) : Marker → Text
  | .bracketOpen => g.bracketOpen
  | .bracketClose => g.bracketClose
  | .quoteOpen => g.quoteOpen
  | .quoteClose => g.quoteClose

/-- The first thing that makes the grammar unusable. -/
def fault? (g : Grammar) : Option GrammarFault :=
  if g.bracketOpen = [] then some (.emptyMarker .bracketOpen)
  else if g.bracketClose = [] then some (.emptyMarker .bracketClose)
  else if g.quoteOpen = [] then some (.emptyMarker .quoteOpen)
  else if g.quoteClose = [] then some (.emptyMarker .quoteClose)
  else if g.delimiters = [] then some .noDelimiters
  else if [] ∈ g.delimiters then some .emptyDelimiter
  else none

/-- A usable grammar: every marker has a character, and there is a delimiter. -/
structure Valid (g : Grammar) : Prop where
  bracketOpen_ne : g.bracketOpen ≠ []
  bracketClose_ne : g.bracketClose ≠ []
  quoteOpen_ne : g.quoteOpen ≠ []
  quoteClose_ne : g.quoteClose ≠ []
  delimiters_ne : g.delimiters ≠ []
  delimiter_ne : ∀ d ∈ g.delimiters, d ≠ []

theorem fault?_eq_none_iff {g : Grammar} : g.fault? = none ↔ g.Valid := by
  constructor
  · intro h
    simp only [fault?] at h
    repeat' split at h
    all_goals first | contradiction | skip
    next h1 h2 h3 h4 h5 h6 => exact ⟨h1, h2, h3, h4, h5, fun d hd he => h6 (he ▸ hd)⟩
  · rintro ⟨h1, h2, h3, h4, h5, h6⟩
    have h6' : [] ∉ g.delimiters := fun h => h6 [] h rfl
    simp [fault?, h1, h2, h3, h4, h5, h6']

instance (g : Grammar) : Decidable g.Valid := decidable_of_iff _ fault?_eq_none_iff

theorem valid_default : Valid {} := fault?_eq_none_iff.1 rfl

/-! ## Delimiters -/

/-- Whether `d` is one of the delimiters. -/
def hasDelimiter (g : Grammar) (d : Text) : Bool := g.delimiters.contains d

/-- The first delimiter, in order of priority, that `t` starts with. -/
def leadingDelimiter? (g : Grammar) (t : Text) : Option Text :=
  g.delimiters.find? fun d => d.isPrefixOf t

/-- Whether a delimiter stands somewhere in `t`. -/
def delimiterOccursIn (g : Grammar) (t : Text) : Bool :=
  g.delimiters.any fun d => Text.occursIn d t

theorem hasDelimiter_iff {g : Grammar} {d : Text} : g.hasDelimiter d = true ↔ d ∈ g.delimiters := by
  simp [hasDelimiter]

theorem mem_of_leadingDelimiter? {g : Grammar} {t d : Text} (h : g.leadingDelimiter? t = some d) : d ∈ g.delimiters :=
  List.mem_of_find?_eq_some h

theorem prefix_of_leadingDelimiter? {g : Grammar} {t d : Text} (h : g.leadingDelimiter? t = some d) : d <+: t := by
  simpa [List.isPrefixOf_iff_prefix] using List.find?_some (p := fun d => List.isPrefixOf d t) h

theorem eq_append_of_leadingDelimiter? {g : Grammar} {t d : Text} (h : g.leadingDelimiter? t = some d) :
    t = d ++ t.drop d.length :=
  (List.prefix_iff_eq_append.1 (prefix_of_leadingDelimiter? h)).symm

theorem leadingDelimiter?_eq_none {g : Grammar} {t : Text} :
    g.leadingDelimiter? t = none ↔ ∀ d ∈ g.delimiters, ¬ d <+: t := by
  simp [leadingDelimiter?, List.isPrefixOf_iff_prefix]

theorem Valid.length_drop_lt {g : Grammar} (h : g.Valid) {t d : Text} (hd : g.leadingDelimiter? t = some d) :
    (t.drop d.length).length < t.length := by
  have hpos := List.length_pos_iff.2 (h.delimiter_ne d (mem_of_leadingDelimiter? hd))
  have hle := (prefix_of_leadingDelimiter? hd).length_le
  rw [List.length_drop]
  omega

/-! ## Verbatim spans -/

/-- `body` between the quote markers. -/
def quote (g : Grammar) (body : Text) : Text := g.quoteOpen ++ body ++ g.quoteClose

/-- Reads the verbatim span at the front of `t`. Nothing inside it is interpreted: it ends at the
first closing marker. -/
def quotedAt (g : Grammar) (t : Text) : QuoteReading :=
  match Text.after? g.quoteOpen t with
  | none => .absent
  | some inside =>
    match Text.breakOn? g.quoteClose inside with
    | none => .unclosed
    | some (body, rest) => .span body rest

theorem quotedAt_eq_absent {g : Grammar} {t : Text} : g.quotedAt t = .absent ↔ ¬ g.quoteOpen <+: t := by
  rw [← Text.after?_eq_none, quotedAt]
  split
  · simp_all
  · split <;> simp_all

/-- A verbatim span is read whole: its opening marker, its body, its closing marker. -/
theorem eq_append_of_quotedAt {g : Grammar} {t body rest : Text} (h : g.quotedAt t = .span body rest) :
    t = g.quote body ++ rest := by
  simp only [quotedAt] at h
  split at h
  · contradiction
  · next inside hin =>
    split at h
    · contradiction
    · next hbr =>
      simp only [QuoteReading.span.injEq] at h
      obtain ⟨rfl, rfl⟩ := h
      rw [Text.eq_append_of_after? hin, Text.eq_append_of_breakOn? hbr, quote]
      simp

theorem Valid.length_lt_of_quotedAt {g : Grammar} (h : g.Valid) {t body rest : Text}
    (hq : g.quotedAt t = .span body rest) : rest.length < t.length := by
  have hpos := List.length_pos_iff.2 h.quoteOpen_ne
  rw [eq_append_of_quotedAt hq, quote]
  simp only [List.length_append]
  omega

end Grammar
end TermTree
