/-
Counting quotes. In a grammar with one quote character for both ends of a span, which stands in no bracket and is no
blank, every quote that a scanner meets opens a span or closes one. So the scanners need not be followed: whatever
they do between the quotes, they come to a span that is never closed exactly when the number of quotes is odd, and
the quote they then report is the last one of the text (`ofText_eq_unterminatedQuote_iff`).

`PairsQuotes` says this of one scan, for each way in which it can end. It is shown of each scanner along its own
recursion, a step being a piece of text with an even number of quotes in front (`PairsQuotes.behind`).
-/
import Mathlib.Algebra.Group.Nat.Defs
import TermTree.Proofs.Token.Seam
import TermTree.Proofs.Tree.Told

namespace TermTree

/-- Both ends of a verbatim span are marked by the character `q`, which is no blank and stands in no bracket. -/
structure Grammar.QuotesWith (g : Grammar) (q : Char) : Prop where
  quoteOpen : g.quoteOpen = [q]
  quoteClose : g.quoteClose = [q]
  not_blank : Text.isBlank q = false
  not_mem_bracketOpen : q ∉ g.bracketOpen
  not_mem_bracketClose : q ∉ g.bracketClose

namespace Grammar.QuotesWith
variable {g : Grammar} {q c : Char} {t body rest : Text} (hq : g.QuotesWith q)
include hq

theorem count_eq_zero_of_blank (ht : ∀ c ∈ t, Text.isBlank c = true) : t.count q = 0 := by
  rw [List.count_eq_zero]
  intro hm
  have hblank := ht q hm
  rw [hq.not_blank] at hblank
  contradiction

theorem count_quote (hspan : g.quotedAt t = .span body rest) : (g.quote body).count q = 2 := by
  have hfirst := (quotedAt_eq_span_iff.1 hspan).2
  have hbody := hfirst.not_infix (by simp [hq.quoteClose])
  rw [hq.quoteClose, List.singleton_infix_iff] at hbody
  rw [quote, hq.quoteOpen, hq.quoteClose]
  simp [List.count_eq_zero.2 hbody]

/-- Where a span is never closed stands the last quote of the text. -/
theorem exists_of_unclosed (hun : g.quotedAt t = .unclosed) : ∃ after, t = q :: after ∧ q ∉ after := by
  unfold quotedAt at hun
  split at hun
  · contradiction
  · next inside hin =>
    split at hun
    · next hno =>
      rw [hq.quoteOpen] at hin
      rw [hq.quoteClose] at hno
      refine ⟨inside, Text.eq_append_of_after? hin, ?_⟩
      have hnot : Text.occursIn [q] inside = false := by rw [Text.occursIn, hno]; rfl
      rwa [Text.occursIn_eq_false, List.singleton_infix_iff] at hnot
    · contradiction

theorem count_singleton_of_absent (habs : g.quotedAt (c :: t) = .absent) : [c].count q = 0 := by
  rw [quotedAt_eq_absent_iff_head? hq.quoteOpen] at habs
  rw [List.count_eq_zero, List.mem_singleton]
  intro hcq
  subst hcq
  exact habs rfl

end Grammar.QuotesWith

namespace Token

/-- What a scan of the text `t`, which stands at `pos`, comes to if it pairs the quotes `q` of the text. Where it
leaves a rest, the quotes in front of the rest are paired. Where it reports a span that is never closed, the number
of quotes is odd and the last one is reported. Any other fault is found when all quotes are paired. -/
def PairsQuotes (q : Char) (pos : Nat) (t : Text) : Except Malformed Text → Prop
  | .ok rest => t.count q % 2 = rest.count q % 2
  | .error (.unterminatedQuote o) => t.count q % 2 = 1 ∧ ∃ after, Text.RestAt pos t o (q :: after) ∧ q ∉ after
  | .error _ => t.count q % 2 = 0

section
variable {g : Grammar} {h : g.Valid} {q : Char} {pos : Nat} {t : Text}

theorem PairsQuotes.behind {piece : Text} {r : Except Malformed Text} (hp : piece.count q % 2 = 0)
    (hr : PairsQuotes q (pos + Text.byteSize piece) t r) : PairsQuotes q pos (piece ++ t) r := by
  have hcount : (piece ++ t).count q % 2 = t.count q % 2 := by
    rw [List.count_append]
    omega
  unfold PairsQuotes at hr ⊢
  split at hr
  · rw [hcount]
    exact hr
  · obtain ⟨hodd, after, hafter, hlast⟩ := hr
    exact ⟨hcount.trans hodd, after, Text.RestAt.trans (.behind pos piece t) hafter, hlast⟩
  · exact hcount.trans hr

theorem PairsQuotes.append {u : Text} {r : Except Malformed Text} (hu : u.count q = 0) (hr : PairsQuotes q pos t r) :
    PairsQuotes q pos (t ++ u) r := by
  have hcount : (t ++ u).count q % 2 = t.count q % 2 := by
    rw [List.count_append, hu, Nat.add_zero]
  unfold PairsQuotes at hr ⊢
  split at hr
  · rw [hcount]
    exact hr
  · obtain ⟨hodd, after, hafter, hlast⟩ := hr
    refine ⟨hcount.trans hodd, after ++ u, hafter.append u, ?_⟩
    rw [List.mem_append, not_or]
    exact ⟨hlast, List.count_eq_zero.1 hu⟩
  · exact hcount.trans hr

variable (hq : g.QuotesWith q)
include hq

theorem pairsQuotes_of_unclosed (hun : g.quotedAt t = .unclosed) :
    PairsQuotes q pos t (.error (.unterminatedQuote pos)) := by
  obtain ⟨after, rfl, hlast⟩ := hq.exists_of_unclosed hun
  refine ⟨?_, after, .start pos _, hlast⟩
  rw [List.count_cons_self, List.count_eq_zero.2 hlast]

theorem PairsQuotes.behind_span {body rest : Text} {r : Except Malformed Text} (hspan : g.quotedAt t = .span body rest)
    (hr : PairsQuotes q (pos + Text.byteSize (g.quote body)) rest r) : PairsQuotes q pos t r := by
  rw [Grammar.eq_append_of_quotedAt hspan]
  refine hr.behind ?_
  rw [hq.count_quote hspan]

/-- The scanner of a group pairs quotes, at whatever depth it meets them. -/
theorem pairsQuotes_scanGroup (opened depth : Nat) :
    PairsQuotes q pos t ((scanGroup g h opened depth pos t).map (·.2)) := by
  have hclose : g.bracketClose.count q = 0 := List.count_eq_zero.2 hq.not_mem_bracketClose
  have hopen : g.bracketOpen.count q = 0 := List.count_eq_zero.2 hq.not_mem_bracketOpen
  fun_induction scanGroup g h opened depth pos t with
  | case1 => rfl
  | case2 pos c t rest hafter =>
    rw [Text.eq_append_of_after? hafter]
    show (_ ++ rest).count q % 2 = rest.count q % 2
    rw [List.count_append, hclose, Nat.zero_add]
  | case3 pos c t rest hafter depth ih =>
    rw [Text.eq_append_of_after? hafter, Outcome.map_map]
    exact ih.behind (by rw [hclose])
  | case4 depth pos c t _ rest hafter ih =>
    rw [Text.eq_append_of_after? hafter, Outcome.map_map]
    exact ih.behind (by rw [hopen])
  | case5 depth pos c t _ _ hun => exact pairsQuotes_of_unclosed hq hun
  | case6 depth pos c t _ _ body rest hspan ih =>
    rw [Outcome.map_map]
    exact ih.behind_span hq hspan
  | case7 depth pos c t _ _ habs ih =>
    rw [Outcome.map_map, ← List.singleton_append]
    exact ih.behind (by rw [hq.count_singleton_of_absent habs])

theorem pairsQuotes_scanLeaf : PairsQuotes q pos t ((scanLeaf g h pos t).map (·.2)) := by
  fun_induction scanLeaf g h pos t with
  | case1 => rfl
  | case2 pos c t hun => exact pairsQuotes_of_unclosed hq hun
  | case3 pos c t body rest hspan ih =>
    rw [Outcome.map_map]
    exact ih.behind_span hq hspan
  | case4 => rfl
  | case5 pos c t habs _ ih =>
    rw [Outcome.map_map, ← List.singleton_append]
    exact ih.behind (by rw [hq.count_singleton_of_absent habs])

theorem pairsQuotes_readToken : PairsQuotes q pos t ((readToken g h pos t).map (·.2)) := by
  unfold readToken
  split
  · next inside hopen =>
    have hcount : g.bracketOpen.count q = 0 := List.count_eq_zero.2 hq.not_mem_bracketOpen
    rw [Text.eq_append_of_after? hopen, Outcome.map_map]
    exact (pairsQuotes_scanGroup hq pos 0).behind (by rw [hcount])
  · rw [Outcome.map_map]
    exact pairsQuotes_scanLeaf hq

/-- The token loop pairs the quotes of a text to its end. -/
theorem pairsQuotes_readTokens : PairsQuotes q pos t ((readTokens g h pos t).map fun _ => []) := by
  fun_induction readTokens g h pos t with
  | case1 => rfl
  | case2 pos c t e he =>
    have hfirst : PairsQuotes q pos (c :: t) ((readToken g h pos (c :: t)).map (·.2)) := pairsQuotes_readToken hq
    rw [he] at hfirst
    exact hfirst
  | case3 pos c t first hf ih =>
    obtain ⟨token, rest⟩ := first
    have hfirst : PairsQuotes q pos (c :: t) ((readToken g h pos (c :: t)).map (·.2)) := pairsQuotes_readToken hq
    have hwhole := eq_append_of_readToken hf
    have hgap : (rest.takeWhile isSeparator).count q = 0 := hq.count_eq_zero_of_blank fun x hx =>
      isBlank_of_isSeparator (List.all_eq_true.1 List.all_takeWhile x hx)
    have hpiece : (token.piece g).count q % 2 = 0 := by
      rw [hf, hwhole] at hfirst
      have hparity : (token.piece g ++ rest).count q % 2 = rest.count q % 2 := hfirst
      rw [List.count_append] at hparity
      omega
    have hsplit : c :: t = token.piece g ++ rest.takeWhile isSeparator ++ rest.dropWhile isSeparator := by
      rw [List.append_assoc, List.takeWhile_append_dropWhile, hwhole]
    rw [Outcome.map_map, hsplit]
    refine PairsQuotes.behind ?_ ih
    rw [List.count_append, hgap, Nat.add_zero]
    exact hpiece

theorem pairsQuotes_tokensAt : PairsQuotes q pos t ((tokensAt g h pos t).map fun _ => []) := by
  have hlead := hq.count_eq_zero_of_blank fun x => Text.isBlank_of_mem_leadingBlanks (t := t)
  have htrail := hq.count_eq_zero_of_blank fun x => Text.isBlank_of_mem_trailingBlanks (t := Text.trimStart t)
  have hbody : PairsQuotes q (pos + Text.byteSize (Text.leadingBlanks t)) (Text.trim t)
      ((tokensAt g h pos t).map fun _ => []) := pairsQuotes_readTokens hq
  have hwhole := (hbody.append htrail).behind (by rw [hlead])
  rwa [← List.append_assoc, Text.leadingBlanks_append_trim_append] at hwhole

end

/-- **A text fails for an open span exactly when its quotes are odd in number.** The fault is then at the last quote
of the text, whatever brackets are open there, and reading the text as a tree fails with it too. -/
theorem ofText_eq_unterminatedQuote_iff {g : Grammar} (hv : g.Valid) {q : Char} (hq : g.QuotesWith q) {t : Text}
    (hsize : Text.byteSize t < 2 ^ 32) :
    ((∃ o, ofText g t = .error (.malformed (.unterminatedQuote o))) ↔ t.count q % 2 = 1) ∧
    ∀ o, ofText g t = .error (.malformed (.unterminatedQuote o)) →
      (∃ after, Text.RestAt 0 t o (q :: after) ∧ q ∉ after) ∧
        Tree.read g t = .error (.malformed (.unterminatedQuote o)) := by
  have hof : ∀ fault, ofText g t = .error (.malformed fault) ↔ tokensAt g hv 0 t = .error fault := by
    intro fault
    rw [ofText_eq hv hsize, Outcome.mapError_eq_error]
    simp
  have hpairs : PairsQuotes q 0 t ((tokensAt g hv 0 t).map fun _ => []) := pairsQuotes_tokensAt hq
  simp only [hof]
  refine ⟨⟨?_, ?_⟩, ?_⟩
  · intro hfails
    obtain ⟨o, ho⟩ := hfails
    rw [ho] at hpairs
    exact hpairs.1
  · intro hodd
    unfold PairsQuotes at hpairs
    split at hpairs
    · next rest hr =>
      obtain ⟨_, -, rfl⟩ := Outcome.map_eq_ok.1 hr
      rw [hodd] at hpairs
      contradiction
    · next o hr => exact ⟨o, Outcome.map_eq_error.1 hr⟩
    · rw [hodd] at hpairs
      contradiction
  · intro o ho
    rw [ho] at hpairs
    refine ⟨hpairs.2, ?_⟩
    rw [Tree.read_eq hv hsize, Tree.readAt_eq, ho]
    rfl

/-- A quote behind a group that is never closed: three quotes, the first two of which hide a closing bracket. -/
theorem ofText_unterminatedQuote_in_group :
    Grammar.Valid {} ∧ Grammar.QuotesWith {} '\x60' ∧ Text.byteSize ['é', ' ', '\x7b', 'b', '.', '\x60', '\x7d', '\x60', ' ', '\x60', 'c'] < 2 ^ 32 ∧
    ofText {} ['é', ' ', '\x7b', 'b', '.', '\x60', '\x7d', '\x60', ' ', '\x60', 'c'] =
      .error (.malformed (.unterminatedQuote 10)) ∧
    Tree.read {} ['é', ' ', '\x7b', 'b', '.', '\x60', '\x7d', '\x60', ' ', '\x60', 'c'] =
      .error (.malformed (.unterminatedQuote 10)) := by
  have hq : Grammar.QuotesWith {} '\x60' := ⟨rfl, rfl, by decide, by decide, by decide⟩
  have hsize : Text.byteSize ['é', ' ', '\x7b', 'b', '.', '\x60', '\x7d', '\x60', ' ', '\x60', 'c'] < 2 ^ 32 := by decide
  have hfails : ofText {} ['é', ' ', '\x7b', 'b', '.', '\x60', '\x7d', '\x60', ' ', '\x60', 'c'] =
      .error (.malformed (.unterminatedQuote 10)) := rfl
  obtain ⟨-, hread⟩ := (ofText_eq_unterminatedQuote_iff Grammar.valid_default hq hsize).2 10 hfails
  exact ⟨Grammar.valid_default, hq, hsize, hfails, hread⟩

end Token
end TermTree
