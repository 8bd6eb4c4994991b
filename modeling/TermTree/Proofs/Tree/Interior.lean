/-
Reading the insides of groups again. The scanner that looks for the end of a group counts all brackets outside
verbatim spans; the token loop that reads the inside afterwards takes brackets within a term for plain text. They
never disagree on whether groups and spans are closed: from each place at which the loop comes to stand, the rest
of the inside closes its spans and all groups that are open there (`exists_readToken_of_closes`). So the inside of
a group can be cut into tokens, and so can the insides of its groups, at any depth (`tokenizes_inside`).
-/
import Mathlib.Algebra.Group.Nat.Defs
import TermTree.Proofs.Token.Exposed
import TermTree.Proofs.Token.Long
import TermTree.Proofs.Token.Seam
import TermTree.Proofs.Tree.Reached
import TermTree.Proofs.Tree.Told
import TermTree.Tree.Writer

namespace TermTree.Tree
open Token

/-- The text is cut into tokens, and so are the insides of its groups, at any depth. -/
inductive Tokenizes (g : Grammar) : Text → Prop where
  | intro {t : Text} {tokens : List Token} : ofText g t = .ok tokens →
      (∀ token ∈ tokens, token.kind = .group → Tokenizes g token.text) → Tokenizes g t

variable {g : Grammar} {h : g.Valid} {o c : Char} {pos : Nat} {t u : Text}

/-- Up to the next separator outside spans a text whose spans are closed is the text of a term. -/
theorem exists_scansLeaf {e : Text} (h : g.Valid) (he : g.Exposes t e) :
    ∃ text rest e₁ e₂, ScansLeaf g t text rest ∧ e = e₁ ++ e₂ ∧ g.Exposes rest e₂ := by
  induction he with
  | nil => exact ⟨[], [], [], [], .nil, rfl, .nil⟩
  | span hspan _ ih =>
    obtain ⟨text, rest, e₁, e₂, hs, rfl, h₂⟩ := ih
    exact ⟨_, rest, e₁, e₂, .of_span h hspan hs, rfl, h₂⟩
  | @char x t e habs ht ih =>
    by_cases hx : isSeparator x = true
    · exact ⟨[], x :: t, [], x :: e, .stop habs hx, rfl, .char habs ht⟩
    · obtain ⟨text, rest, e₁, e₂, hs, rfl, h₂⟩ := ih
      exact ⟨x :: text, rest, x :: e₁, e₂, .char habs (by simpa using hx) hs, rfl, h₂⟩

theorem closes_dropWhile {q : Char} (hq : g.quoteOpen = [q]) {p : Char → Bool} (hp : p q = false) {k : Nat}
    (ht : g.Closes o c k t) : ∃ k', g.Closes o c k' (t.dropWhile p) := by
  obtain ⟨e, he, hn⟩ := ht
  obtain ⟨e₁, e₂, rfl, he₂⟩ := he.dropWhile hq hp
  obtain ⟨k', hk⟩ := hn.exists_of_append
  exact ⟨k', e₂, he₂, hk⟩

section
variable (hg : g.Simple) (ho : g.bracketOpen = [o]) (hc : g.bracketClose = [c])
include hg ho hc

/-- Where the rest of a text closes its spans and the groups that are open, a token can be read, and the same
holds behind it. -/
theorem exists_readToken_of_closes (h : g.Valid) (pos : Nat) {k : Nat} (ht : g.Closes o c k t) :
    ∃ token rest k', readToken g h pos t = .ok (token, rest) ∧ g.Closes o c k' rest := by
  obtain ⟨q, hq, hoc, hoq, hcq⟩ := hg.exists_quote ho hc
  obtain ⟨e, he, hn⟩ := ht
  cases hopen : Text.after? g.bracketOpen t with
  | none =>
    obtain ⟨text, rest, e₁, e₂, hs, rfl, h₂⟩ := exists_scansLeaf h he
    obtain ⟨k', hk⟩ := hn.exists_of_append
    exact ⟨_, rest, k', readToken_eq_ok.2 (.inr ⟨hopen, text, hs, rfl⟩), e₂, h₂, hk⟩
  | some inside =>
    obtain rfl : t = o :: inside := by
      rw [Text.eq_append_of_after? hopen, ho]
      rfl
    obtain ⟨e, rfl, hinside⟩ := he.of_cons hq hoq
    -- the bracket that closes the group is the one that cuts what stands outside the spans
    obtain ⟨e₁, e₂, rfl, hn₁, hn₂⟩ := ((Text.Nests.cons_open hoc).1 hn).split hoc k 0
    obtain ⟨t₁, t₂, rfl, he₁, he₂⟩ := hinside.split
    have hs := scansGroup_of_closes ho hc hq hoc hoq hcq t₂ ⟨e₁, he₁, hn₁⟩
    exact ⟨_, t₂, k, readToken_eq_ok.2 (.inl ⟨_, t₁, hopen, hs, rfl⟩), e₂, he₂, hn₂⟩

theorem closes_trim {k : Nat} (ht : g.Closes o c k t) : ∃ k', g.Closes o c k' (Text.trim t) := by
  have hblank : ∀ m {x : Char}, g.markerText m = [x] → ∀ {u : Text}, (∀ y ∈ u, Text.isBlank y = true) → x ∉ u := by
    intro m x hx u hu hm
    exact hg.ne_of_isBlank m hx (hu x hm) rfl
  obtain ⟨q, hq, -⟩ := hg.punctuated.quoteOpen
  obtain ⟨r, hr, -⟩ := hg.punctuated.quoteClose
  obtain ⟨k', e, he, hn⟩ := closes_dropWhile hq (hg.not_isBlank .quoteOpen hq) ht
  have htrail : ∀ y ∈ Text.trailingBlanks (Text.trimStart t), Text.isBlank y = true := fun _ =>
    Text.isBlank_of_mem_trailingBlanks
  have hparts : Text.trim t ++ Text.trailingBlanks (Text.trimStart t) = t.dropWhile Text.isBlank :=
    Text.trimEnd_append_trailingBlanks _
  rw [← hparts] at he
  obtain ⟨e₁, e₂, rfl, he₁, he₂⟩ := he.of_append hr (hblank .quoteClose hr htrail)
  have hsub : ∀ y ∈ e₂, Text.isBlank y = true := fun y hy => htrail y (he₂ hy)
  exact ⟨k', e₁, he₁, hn.of_append_not_mem (hblank .bracketOpen ho hsub) (hblank .bracketClose hc hsub)⟩

theorem exists_readTokens_of_closes {k : Nat} (ht : g.Closes o c k t) :
    ∃ tokens, readTokens g h pos t = .ok tokens := by
  fun_induction readTokens g h pos t generalizing k with
  | case1 => exact ⟨[], rfl⟩
  | case2 pos x t e he =>
    obtain ⟨token, rest, _, hr, -⟩ := exists_readToken_of_closes hg ho hc h pos ht
    rw [he] at hr
    contradiction
  | case3 pos x t first hf ih =>
    obtain ⟨token, rest, k', hr, hrest⟩ := exists_readToken_of_closes hg ho hc h pos ht
    rw [hf] at hr
    cases hr
    obtain ⟨q, hq, -⟩ := hg.punctuated.quoteOpen
    obtain ⟨k'', hdrop⟩ := closes_dropWhile hq (isSeparator_of_not_isBlank (hg.not_isBlank .quoteOpen hq)) hrest
    obtain ⟨tokens, htokens⟩ := ih hdrop
    exact ⟨token :: tokens, Outcome.map_eq_ok.2 ⟨tokens, htokens, rfl⟩⟩

theorem exists_tokensAt_of_closes (h : g.Valid) (pos : Nat) {k : Nat} (ht : g.Closes o c k t) :
    ∃ tokens, tokensAt g h pos t = .ok tokens := by
  obtain ⟨_, htrim⟩ := closes_trim hg ho hc ht
  exact exists_readTokens_of_closes hg ho hc htrim

/-- The inside of a group closes its spans, and its brackets are balanced. -/
theorem closes_of_runs {pos' : Nat} {t' : Text} {tokens : List Token} (hrun : Runs g h pos t tokens pos' t') :
    ∀ token ∈ tokens, token.kind = .group → g.Closes o c 0 token.text := by
  obtain ⟨q, hq, hoc, hoq, hcq⟩ := hg.exists_quote ho hc
  intro token hm hk
  obtain ⟨_, _, _, -, hr⟩ := hrun.exists_readToken hm
  rcases readToken_eq_ok.1 hr with ⟨_, text, -, hs, rfl⟩ | ⟨-, text, -, rfl⟩
  · exact closes_of_scansGroup ho hc hq hoc hoq hcq h hs
  · contradiction

/-- All texts that are read on the way, except the whole one, close their spans and their brackets. -/
theorem Reached.closes (hu : Reached g t pos u) : pos = 0 ∧ u = t ∨ g.Closes o c 0 u := by
  cases hu with
  | whole => exact .inl ⟨rfl, rfl⟩
  | inside _ hrun hm hk => exact .inr (closes_of_runs hg ho hc hrun _ hm hk)

/-- A text that is cut into tokens is cut at any depth. -/
theorem tokenizes_of_tokensAt {t : Text} (hsize : Text.byteSize t < 2 ^ 32) {tokens : List Token}
    (ht : tokensAt g h 0 t = .ok tokens) : Tokenizes g t := by
  have htold : ofText g t = .ok tokens := by rw [ofText_eq h hsize, ht, Outcome.mapError_ok]
  refine .intro htold fun token hm hk => ?_
  have hlt := length_lt_of_mem_tokensAt ht hm hk
  obtain ⟨_, hrun⟩ := exists_runs_of_ok ht
  obtain ⟨_, hstart⟩ := ((hrun.standsIn token hm).within (Text.restAt_trim 0 t)).start
  have hsize' := hstart.byteSize_lt hlt
  obtain ⟨tokens', ht'⟩ := exists_tokensAt_of_closes hg ho hc h 0 (closes_of_runs hg ho hc hrun token hm hk)
  exact tokenizes_of_tokensAt (by omega) ht'
termination_by t.length

/-- Only the outermost text may fail to be cut into tokens; any other fault is one of a term. -/
theorem tokensAt_eq_error_or_termFails {fault : Malformed} (hr : readAt g h 0 t = .error fault) :
    tokensAt g h 0 t = .error fault ∨ TermFails g t fault := by
  rcases Reached.whole.tokensAt_eq_error_or_termFails hr with ⟨pos, u, hu, he⟩ | hterm
  · rcases hu.closes hg ho hc with ⟨rfl, rfl⟩ | hcloses
    · exact .inl he
    · obtain ⟨tokens, ht⟩ := exists_tokensAt_of_closes hg ho hc h pos hcloses
      rw [ht] at he
      contradiction
  · exact .inr hterm

end

theorem not_termFails_unterminatedGroup {a : Nat} : ¬ TermFails g t (.unterminatedGroup a) := by
  rintro ⟨_, _, _, _, -, -, _, -, -, he⟩
  cases Term.fault_of_readAt he

theorem readAt_eq_unterminatedGroup (hg : g.Simple) {a : Nat} :
    readAt g h 0 t = .error (.unterminatedGroup a) ↔ tokensAt g h 0 t = .error (.unterminatedGroup a) := by
  obtain ⟨o, c, -, ho, hc, -⟩ := hg.exists_chars
  constructor
  · intro hr
    exact (tokensAt_eq_error_or_termFails hg ho hc hr).resolve_right not_termFails_unterminatedGroup
  · intro ht
    rw [readAt_eq, ht]
    rfl

/-! ## The group around a text -/

section
variable (hg : g.Simple)
include hg

theorem trimmed_enclosed (t : Text) : Text.Trimmed (enclose g .group t) := by
  obtain ⟨o, c, q, ho, hc, hq, -⟩ := hg.exists_chars
  rw [enclose, ho, hc]
  constructor
  · simpa using hg.not_isBlank .bracketOpen ho
  · rw [List.getLast?_append]
    simpa using hg.not_isBlank .bracketClose hc

theorem tokensAt_enclosed (t : Text) : tokensAt g h 0 (enclose g .group t) = readTokens g h 0 (enclose g .group t) := by
  obtain ⟨hlead, htrim⟩ := (trimmed_enclosed hg t).trim_self
  rw [tokensAt, hlead, htrim, Text.byteSize_nil]

theorem readToken_enclosed (ho : g.bracketOpen = [o]) (hc : g.bracketClose = [c]) (ht : g.Closes o c 0 t) :
    readToken g h 0 (enclose g .group t) =
      .ok (⟨.group, t, 0 + Text.byteSize g.bracketOpen, 0 + Text.byteSize g.bracketOpen + Text.byteSize t⟩, []) := by
  obtain ⟨q, hq, hoc, hoq, hcq⟩ := hg.exists_quote ho hc
  have hscan := scansGroup_of_closes ho hc hq hoc hoq hcq [] ht
  refine readToken_eq_ok.2 (.inl ⟨t ++ g.bracketClose, t, ?_, ?_, rfl⟩)
  · rw [enclose, List.append_assoc, Text.after?_append]
  · rwa [hc]

/-- The group around a text that closes its spans and brackets is told if its range is. -/
theorem ofText_enclosed (hv : g.Valid) (ho : g.bracketOpen = [o]) (hc : g.bracketClose = [c]) (ht : g.Closes o c 0 t) :
    ofText g (enclose g .group t) =
      List.mapM (told 0) [⟨.group, t, 0 + Text.byteSize g.bracketOpen, 0 + Text.byteSize g.bracketOpen + Text.byteSize t⟩] := by
  have hne : enclose g .group t ≠ [] := by simp [enclose, ho]
  have htokens := readTokens_of_readToken (h := hv) hne (readToken_enclosed hg ho hc ht)
  rw [← tokensAt_enclosed hg] at htokens
  exact ofText_of_trimmed (trimmed_enclosed hg t) htokens

end

/-- **The insides of groups are cut into tokens whenever the text is**, at any depth, where each place of the text has
an offset. So a group is missing its closing bracket for the whole reader just when it is for the token reader, and
whatever else goes wrong in a text that is cut into tokens is the fault of a term. (A grammar that has no delimiters
refuses every text.) -/
theorem tokenizes_inside {g : Grammar} (hg : g.delimiters ≠ [] → g.Simple) {t : Text}
    (hsize : Text.byteSize t < 2 ^ 32) :
    (∀ tokens, ofText g t = .ok tokens → Tokenizes g t) ∧
    (∀ o, read g t = .error (.malformed (.unterminatedGroup o)) ↔
      ofText g t = .error (.malformed (.unterminatedGroup o))) ∧
    ∀ tokens e, ofText g t = .ok tokens → read g t = .error e →
      ∃ fault, e = .malformed fault ∧ TermFails g t fault := by
  by_cases h : g.Valid
  · have hsimple := hg h.delimiters_ne
    obtain ⟨o, c, -, ho, hc, -⟩ := hsimple.exists_chars
    rw [read_eq h hsize, ofText_eq h hsize]
    refine ⟨fun tokens ht => ?_, fun a => ?_, fun tokens e ht hr => ?_⟩
    · exact tokenizes_of_tokensAt hsimple ho hc hsize (Outcome.mapError_eq_ok.1 ht)
    · simpa only [Outcome.mapError_eq_error, Error.malformed.injEq, exists_eq_right] using
        readAt_eq_unterminatedGroup hsimple
    · obtain ⟨fault, hfault, rfl⟩ := Outcome.mapError_eq_error.1 hr
      rcases tokensAt_eq_error_or_termFails hsimple ho hc hfault with he | hterm
      · rw [Outcome.mapError_eq_ok.1 ht] at he
        contradiction
      · exact ⟨fault, rfl, hterm⟩
  · obtain ⟨fault, hfault⟩ := Option.ne_none_iff_exists'.1 fun hnone => h (Grammar.fault?_eq_none_iff.1 hnone)
    rw [read, ofText, Grammar.reading_eq_throw hfault, Grammar.reading_eq_throw hfault]
    refine ⟨fun _ ht => ?_, fun _ => ⟨fun hr => ?_, fun ht => ?_⟩, fun _ _ ht => ?_⟩
    · cases ht
    · cases hr
    · cases ht
    · cases ht

/-- The scanner counts the brackets of `a{b}` in a group; the token loop takes them for a part of the term, which
is the one at fault. Without the last bracket the group is not closed for either. -/
theorem tokenizes_inside_term :
    Text.byteSize ['\x7b', 'a', '\x7b', 'b', '\x7d', ' ', '\x7b', 'c', '\x7d', '\x7d'] < 2 ^ 32 ∧
    Text.byteSize ['\x7b', 'a', '\x7b', 'b', '\x7d'] < 2 ^ 32 ∧
    Tokenizes {} ['\x7b', 'a', '\x7b', 'b', '\x7d', ' ', '\x7b', 'c', '\x7d', '\x7d'] ∧
    TermFails {} ['\x7b', 'a', '\x7b', 'b', '\x7d', ' ', '\x7b', 'c', '\x7d', '\x7d']
      (.missingDelimiter 2 ['a', '\x7b', 'b', '\x7d']) ∧
    read {} ['\x7b', 'a', '\x7b', 'b', '\x7d'] = .error (.malformed (.unterminatedGroup 0)) := by
  have hg : Grammar.delimiters {} ≠ [] → Grammar.Simple {} := fun _ => Grammar.simple_default
  have hsize : Text.byteSize ['\x7b', 'a', '\x7b', 'b', '\x7d', ' ', '\x7b', 'c', '\x7d', '\x7d'] < 2 ^ 32 := by decide
  have hsize₂ : Text.byteSize ['\x7b', 'a', '\x7b', 'b', '\x7d'] < 2 ^ 32 := by decide
  have htokens : ofText {} ['\x7b', 'a', '\x7b', 'b', '\x7d', ' ', '\x7b', 'c', '\x7d', '\x7d'] =
      .ok [⟨.group, ['a', '\x7b', 'b', '\x7d', ' ', '\x7b', 'c', '\x7d'], 1, 9⟩] := rfl
  have hread : read {} ['\x7b', 'a', '\x7b', 'b', '\x7d', ' ', '\x7b', 'c', '\x7d', '\x7d'] =
      .error (.malformed (.missingDelimiter 2 ['a', '\x7b', 'b', '\x7d'])) := rfl
  obtain ⟨hinside, -, hfault⟩ := tokenizes_inside hg hsize
  obtain ⟨_, he, hterm⟩ := hfault _ _ htokens hread
  cases he
  exact ⟨hsize, hsize₂, hinside _ htokens, hterm, ((tokenizes_inside hg hsize₂).2.1 0).2 rfl⟩

/-- **In a text without an offset for each place a group may be told whose inside is refused**: the low 32 bits of its
end are still behind its beginning, but those of a term in it are not. -/
theorem not_tokenizes_inside_longWord :
    Grammar.Simple {} ∧
    ofText {} (enclose {} .group (['b', ' '] ++ Text.longWord)) = .ok [⟨.group, ['b', ' '] ++ Text.longWord, 1, 2⟩] ∧
    ofText {} (['b', ' '] ++ Text.longWord) = .error (.noOffset .reversed) ∧
    ¬ Tokenizes {} (enclose {} .group (['b', ' '] ++ Text.longWord)) := by
  have hg := Grammar.simple_default
  have hinside := ofText_behind_longWord
  have hexposes : Grammar.Exposes {} (['b', ' '] ++ Text.longWord) (['b', ' '] ++ Text.longWord) :=
    .char rfl (.char rfl exposes_longWord)
  have hbare (x : Char) (hx : x ∉ ['b', ' ']) (ha : x ≠ 'a') : x ∉ ['b', ' '] ++ Text.longWord := fun hm =>
    (List.mem_append.1 hm).elim hx fun hm => ha (Text.eq_of_mem_longWord hm)
  have hcloses : Grammar.Closes {} '{' '}' 0 (['b', ' '] ++ Text.longWord) :=
    ⟨_, hexposes, .of_not_mem (hbare _ (by decide) (by decide)) (hbare _ (by decide) (by decide))⟩
  have htokens : ofText {} (enclose {} .group (['b', ' '] ++ Text.longWord)) =
      .ok [⟨.group, ['b', ' '] ++ Text.longWord, 1, 2⟩] := by
    have hstop : 0 + Text.byteSize (Grammar.bracketOpen {}) + Text.byteSize (['b', ' '] ++ Text.longWord) =
        UInt32.size + 2 := by
      have hsize : Text.byteSize (Grammar.bracketOpen {}) = 1 ∧ Text.byteSize ['b', ' '] = 2 := ⟨rfl, rfl⟩
      have hlong := Text.byteSize_longWord
      rw [Text.byteSize_append]
      omega
    rw [ofText_enclosed hg Grammar.valid_default rfl rfl hcloses, hstop, Outcome.mapM_cons, told,
      rangeOf_of_le (by decide) (by decide)]
    rfl
  refine ⟨hg, htokens, hinside, fun ht => ?_⟩
  cases ht with
  | intro hr hnext =>
    rw [htokens] at hr
    cases hr
    cases hnext _ (List.mem_singleton_self _) rfl with
    | intro hr' _ =>
      rw [hinside] at hr'
      cases hr'

end TermTree.Tree
