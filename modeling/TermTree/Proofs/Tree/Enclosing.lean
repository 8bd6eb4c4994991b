/-
Putting a text in brackets. In a text that stands by itself a bracket within a term is plain text; between
brackets every bracket outside verbatim spans counts. So a text that reads as a tree reads, between brackets, as a
group with that tree in it exactly when its brackets outside verbatim spans are balanced (`read_enclosed_iff`).
Otherwise the group ends too early, or not at all.
-/
import Mathlib.Data.List.TakeWhile
import TermTree.Proofs.Token.Lossless
import TermTree.Proofs.Tree.Interior
import TermTree.Proofs.Tree.RoundTrip
import TermTree.Proofs.Tree.Splicing
import TermTree.Tree.Writer

namespace TermTree.Tree
open Token

variable {g : Grammar} {h : g.Valid} {o c : Char} {pos : Nat} {t rest : Text} {token : Token} {tokens : List Token}

/-! ## A text that is cut into tokens closes its spans -/

section
variable (hg : g.Simple)
include hg

theorem exposes_of_blank {u : Text} (hu : ∀ x ∈ u, Text.isBlank x = true) : g.Exposes u u := by
  obtain ⟨q, hq, -⟩ := hg.punctuated.quoteOpen
  exact .of_not_mem hq fun hm => hg.ne_of_isBlank .quoteOpen hq (hu q hm) rfl

theorem exists_exposes_piece (hr : readToken g h pos t = .ok (token, rest)) : ∃ e, g.Exposes (token.piece g) e := by
  obtain ⟨o, c, q, ho, hc, hq, hoc, hoq, hcq⟩ := hg.exists_chars
  have hq1 : g.quoteOpen.length = 1 := by simp [hq]
  rcases readToken_eq_ok.1 hr with ⟨_, text, -, hs, rfl⟩ | ⟨-, text, hs, rfl⟩
  · obtain ⟨e, he, -⟩ := closes_of_scansGroup ho hc hq hoc hoq hcq h hs
    have hopen : g.Exposes [o] [o] := .of_not_mem hq (by simpa using hoq.symm)
    have hclose : g.Exposes [c] [c] := .of_not_mem hq (by simpa using hcq.symm)
    refine ⟨[o] ++ e ++ [c], ?_⟩
    rw [Token.piece, ho, hc]
    exact (hopen.append hq1 he).append hq1 hclose
  · obtain ⟨e, he, -⟩ := undivided_of_scansLeaf h hs
    exact ⟨e, he⟩

theorem exists_exposes_of_readTokens (hr : readTokens g h pos t = .ok tokens) : ∃ e, g.Exposes t e := by
  have hq1 : g.quoteOpen.length = 1 := by
    obtain ⟨q, hq, -⟩ := hg.punctuated.quoteOpen
    simp [hq]
  fun_induction readTokens g h pos t generalizing tokens with
  | case1 => exact ⟨[], .nil⟩
  | case2 => contradiction
  | case3 pos x t first hf ih =>
    obtain ⟨others, hothers, -⟩ := Outcome.map_eq_ok.1 hr
    obtain ⟨e, he⟩ := exists_exposes_piece hg hf
    obtain ⟨f, hf'⟩ := ih hothers
    have hgap : g.Exposes (first.2.takeWhile isSeparator) (first.2.takeWhile isSeparator) :=
      exposes_of_blank hg fun y hy => isBlank_of_isSeparator (List.all_eq_true.1 List.all_takeWhile y hy)
    rw [eq_append_of_readToken hf, ← List.takeWhile_append_dropWhile (p := isSeparator) (l := first.2)]
    exact ⟨_, he.append hq1 (hgap.append hq1 hf')⟩

/-- All spans of a text that is cut into tokens are closed. -/
theorem exists_exposes_of_tokensAt (hr : tokensAt g h pos t = .ok tokens) : ∃ e, g.Exposes t e := by
  have hq1 : g.quoteOpen.length = 1 := by
    obtain ⟨q, hq, -⟩ := hg.punctuated.quoteOpen
    simp [hq]
  obtain ⟨e, he⟩ := exists_exposes_of_readTokens hg hr
  have hlead := exposes_of_blank hg fun x => Text.isBlank_of_mem_leadingBlanks (t := t)
  have htrail := exposes_of_blank hg fun x => Text.isBlank_of_mem_trailingBlanks (t := Text.trimStart t)
  rw [← Text.leadingBlanks_append_trim_append t]
  exact ⟨_, (hlead.append hq1 he).append hq1 htrail⟩

/-! ## The group around a text -/

/-- A text that is the only token of itself in brackets closes its spans and brackets. -/
theorem closes_of_readTokens_enclosed (ho : g.bracketOpen = [o]) (hc : g.bracketClose = [c])
    (hr : readTokens g h pos (enclose g .group t) = .ok [token]) : g.Closes o c 0 t := by
  obtain ⟨q, hq, hoc, hoq, hcq⟩ := hg.exists_quote ho hc
  obtain ⟨-, rest, _, hfirst, hothers⟩ := readTokens_eq_cons hr
  have hafter : Text.after? g.bracketOpen (enclose g .group t) = some (t ++ g.bracketClose) := by
    rw [enclose, List.append_assoc, Text.after?_append]
  rcases readToken_eq_ok.1 hfirst with ⟨inside, text, hinside, hs, -⟩ | ⟨hno, -⟩
  · obtain rfl : t ++ g.bracketClose = inside := Option.some.inj (hafter.symm.trans hinside)
    have hwhole := hs.eq_append h
    -- the group's own closing bracket is the last character
    have hrest : rest = [] := by
      refine eq_nil_of_separators (s := text ++ g.bracketClose) (fun x hx => ?_) fun x hx => ?_
      · rw [← hwhole, hc, List.getLast?_append, List.getLast?_singleton, Option.some_or] at hx
        obtain rfl : c = x := by simpa using hx
        exact isSeparator_of_not_isBlank (hg.not_isBlank .bracketClose hc)
      · exact List.dropWhile_eq_nil_iff.1 (readTokens_eq_nil hothers) x hx
    rw [hrest, List.append_nil] at hwhole
    rw [List.append_cancel_right hwhole]
    exact closes_of_scansGroup ho hc hq hoc hoq hcq h hs
  · rw [hafter] at hno
    contradiction

theorem readAt_enclosed_iff (ho : g.bracketOpen = [o]) (hc : g.bracketClose = [c]) {n : Tree Term}
    (hr : readAt g h 0 t = .ok n) : readAt g h 0 (enclose g .group t) = .ok (group g [n]) ↔ g.Closes o c 0 t := by
  rw [readAt_eq_ok, tokensAt_enclosed hg]
  constructor
  · rintro ⟨tokens, cs, htokens, hcs, heq⟩
    obtain rfl : [n] = cs := by simpa using heq
    obtain ⟨token, others, rfl, -, hothers⟩ := Outcome.mapM_eq_cons hcs
    obtain rfl := Outcome.mapM_eq_nil hothers
    exact closes_of_readTokens_enclosed hg ho hc htokens
  · intro ht
    have hne : enclose g .group t ≠ [] := by simp [enclose, ho]
    have hinside : ∀ n, readAt g h n t = .ok _ := fun n => by
      rw [← Nat.add_zero n, readAt_shift, hr, Outcome.mapError_ok]
    refine ⟨_, [n], readTokens_of_readToken hne (readToken_enclosed hg ho hc ht), ?_, rfl⟩
    rw [Outcome.mapM_cons, ofToken, hinside]
    rfl

end

/-- **Between brackets a text reads as a group with its own tree in it exactly when its brackets are balanced**, if each
place of the text between brackets has an offset: of the characters `e` that stand outside its verbatim spans, every
closing bracket closes one that was opened, and all are closed. (A grammar that has no delimiters refuses every
text.) -/
theorem read_enclosed_iff {g : Grammar} (hg : g.delimiters ≠ [] → g.Simple) {t : Text}
    (hsize : Text.byteSize (enclose g .group t) < 2 ^ 32) {n : Tree Term} (hr : read g t = .ok n) :
    ∃ o c e, g.bracketOpen = [o] ∧ g.bracketClose = [c] ∧ g.Exposes t e ∧
      (read g (enclose g .group t) = .ok (group g [n]) ↔ Text.Nests o c 0 e) := by
  obtain ⟨h, hr⟩ := exists_readAt_of_read hr
  have hg := hg h.delimiters_ne
  obtain ⟨o, c, -, ho, hc, -⟩ := hg.exists_chars
  obtain ⟨tokens, -, htokens, -⟩ := readAt_eq_ok.1 hr
  obtain ⟨e, he⟩ := exists_exposes_of_tokensAt hg htokens
  refine ⟨o, c, e, ho, hc, he, ?_⟩
  rw [read_eq h hsize, Outcome.mapError_eq_ok, readAt_enclosed_iff hg ho hc hr]
  constructor
  · rintro ⟨f, hf, hn⟩
    rwa [he.unique h hf]
  · exact fun hn => ⟨e, he, hn⟩

/-- A closing bracket inside a verbatim span closes no group. In front of the opening one it closes the group around
the text. -/
theorem read_enclosed_bracket_in_span :
    Text.byteSize (enclose {} .group ['a', '.', '\x7b', '\x60', '\x7d', '\x60', '\x7d']) < 2 ^ 32 ∧
    Text.byteSize (enclose {} .group ['a', '.', '\x7d', '\x7b']) < 2 ^ 32 ∧
    (∃ n, read {} ['a', '.', '\x7b', '\x60', '\x7d', '\x60', '\x7d'] = .ok n ∧
      read {} (enclose {} .group ['a', '.', '\x7b', '\x60', '\x7d', '\x60', '\x7d']) = .ok (group {} [n])) ∧
    ∃ n, read {} ['a', '.', '\x7d', '\x7b'] = .ok n ∧
      read {} (enclose {} .group ['a', '.', '\x7d', '\x7b']) ≠ .ok (group {} [n]) := by
  have hg : Grammar.delimiters {} ≠ [] → Grammar.Simple {} := fun _ => Grammar.simple_default
  have hsize₁ : Text.byteSize (enclose {} .group ['a', '.', '\x7b', '\x60', '\x7d', '\x60', '\x7d']) < 2 ^ 32 := by decide
  have hsize₂ : Text.byteSize (enclose {} .group ['a', '.', '\x7d', '\x7b']) < 2 ^ 32 := by decide
  refine ⟨hsize₁, hsize₂, ?_, ?_⟩
  · have hr : read {} ['a', '.', '\x7b', '\x60', '\x7d', '\x60', '\x7d'] =
        .ok (group {} [leaf {} ⟨['a'], [⟨['.'], ['\x7b', '\x60', '\x7d', '\x60', '\x7d']⟩], {}⟩]) := rfl
    obtain ⟨o, c, e, ho, hc, he, hiff⟩ := read_enclosed_iff hg hsize₁ hr
    cases ho
    cases hc
    have hspan : Grammar.Exposes {} (Grammar.quote {} ['\x7d'] ++ ['\x7d']) ['\x7d'] := .span rfl (.char rfl .nil)
    obtain rfl := he.unique Grammar.valid_default (.char rfl (.char rfl (.char rfl hspan)))
    refine ⟨_, hr, hiff.2 ⟨fun p hp => ?_, by decide⟩⟩
    have hprefixes : ∀ p ∈ List.inits ['a', '.', '\x7b', '\x7d'], p.count '\x7d' ≤ 0 + p.count '\x7b' := by decide
    exact hprefixes p ((List.mem_inits _ _).2 hp)
  · have hr : read {} ['a', '.', '\x7d', '\x7b'] =
        .ok (group {} [leaf {} ⟨['a'], [⟨['.'], ['\x7d', '\x7b']⟩], {}⟩]) := rfl
    obtain ⟨o, c, e, ho, hc, he, hiff⟩ := read_enclosed_iff hg hsize₂ hr
    cases ho
    cases hc
    obtain rfl := he.unique Grammar.valid_default (.char rfl (.char rfl (.char rfl (.char rfl .nil))))
    refine ⟨_, hr, fun hread => ?_⟩
    have hbelow := (hiff.1 hread).never_below ['a', '.', '\x7d'] ⟨['\x7b'], rfl⟩
    contradiction

theorem read_longWord : read {} Text.longWord = .ok (group {} [leaf {} ⟨Text.longWord, [], {}⟩]) := by
  have hg := Grammar.simple_default
  have huniform : Uniform {} (group {} [leaf {} ⟨Text.longWord, [], {}⟩]) :=
    .group fun c hc => by rw [List.mem_singleton.1 hc]; exact .leaf rfl
  have htidy : ∀ a ∈ leaves (group {} [leaf {} (⟨Text.longWord, [], {}⟩ : Term)]), a.Tidy := by
    simpa using tidy_longWord
  have htext : (group {} [leaf {} ⟨Text.longWord, [], {}⟩]).termText = Text.longWord := by
    rw [termText_group, List.map_singleton, piece_leaf, toText_longWord]
    rfl
  have hread := readAt_termText (h := Grammar.valid_default) hg _ huniform (fun a ha => (htidy a ha).restorable)
    (legible_of_tidy hg rfl rfl huniform htidy).1 rfl 0
  rw [htext] at hread
  rw [read_eq Grammar.valid_default (by rw [← Text.byteSize_longWord]; omega), hread, Outcome.mapError_ok]

/-- **In a text without an offset for each place a group may be refused whatever its brackets**: a word that is read on
its own is too long to stand between brackets. -/
theorem not_read_enclosed_longWord :
    Grammar.Simple {} ∧ (∃ n, read {} Text.longWord = .ok n) ∧ Grammar.Exposes {} Text.longWord Text.longWord ∧
      Text.Nests '\x7b' '\x7d' 0 Text.longWord ∧
      read {} (enclose {} .group Text.longWord) = .error (.noOffset .reversed) := by
  have hg := Grammar.simple_default
  have hnests : Text.Nests '\x7b' '\x7d' 0 Text.longWord :=
    .of_not_mem (fun hm => absurd (Text.eq_of_mem_longWord hm) (by decide))
      fun hm => absurd (Text.eq_of_mem_longWord hm) (by decide)
  refine ⟨hg, ⟨_, read_longWord⟩, exposes_longWord, hnests, ?_⟩
  · have hstop : 0 + Text.byteSize (Grammar.bracketOpen {}) + Text.byteSize Text.longWord = UInt32.size := by
      have hsize : Text.byteSize (Grammar.bracketOpen {}) = 1 := rfl
      have hlong := Text.byteSize_longWord
      omega
    refine read_eq_error_of_ofText ?_
    rw [ofText_enclosed hg Grammar.valid_default rfl rfl ⟨_, exposes_longWord, hnests⟩, hstop, Outcome.mapM_cons, told,
      rangeOf_reversed (by decide) (by decide)]
    rfl

end TermTree.Tree
