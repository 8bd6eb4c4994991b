/-
The tokens of a text are the text. Their pieces and the separators between them make up what trimming leaves of
the text (`exists_cut`), and each token says at which bytes of the text its own text stands. So nothing is
dropped, nothing is read twice, and no byte is attributed to the wrong token (`ofText_lossless`).
-/
import Mathlib.Algebra.Group.Nat.Defs
import TermTree.Proofs.Token.Run
import TermTree.Proofs.Token.Seam
import TermTree.Proofs.Token.Told

namespace TermTree.Token

/-- `parts` cuts the text `t` into tokens, each with the gap behind it. Gaps are made of separators. Behind the
text of a term that is not the last token there is one, and none stands behind the last token. -/
structure Cut (g : Grammar) (t : Text) (tokens : List Token) (parts : List (Token × Text)) : Prop where
  tokens_eq : parts.map Prod.fst = tokens
  text_eq : t = parts.flatMap fun part => part.1.piece g ++ part.2
  gap : ∀ part ∈ parts, ∀ c ∈ part.2, isSeparator c = true
  gap_ne : ∀ part ∈ parts.dropLast, part.1.kind = .leaf → part.2 ≠ []
  last : ∀ part ∈ parts.getLast?, part.2 = []

variable {g : Grammar} {h : g.Valid} {pos : Nat} {t : Text} {token : Token} {tokens : List Token}

theorem Cut.nil : Cut g [] [] [] where
  tokens_eq := rfl
  text_eq := rfl
  gap := by simp
  gap_ne := by simp
  last := by simp

theorem Cut.single (g : Grammar) (token : Token) : Cut g (token.piece g) [token] [(token, [])] where
  tokens_eq := rfl
  text_eq := by simp
  gap := by simp
  gap_ne := by simp
  last := by simp

theorem Cut.cons {gap : Text} {parts : List (Token × Text)} (hgap : ∀ c ∈ gap, isSeparator c = true)
    (hne : token.kind = .leaf → gap ≠ []) (hparts : parts ≠ []) (hcut : Cut g t tokens parts) :
    Cut g (token.piece g ++ gap ++ t) (token :: tokens) ((token, gap) :: parts) where
  tokens_eq := congrArg (token :: ·) hcut.tokens_eq
  text_eq := congrArg (token.piece g ++ gap ++ ·) hcut.text_eq
  gap part hp := by
    rcases List.mem_cons.1 hp with rfl | hp
    · exact hgap
    · exact hcut.gap part hp
  gap_ne part hp := by
    rw [List.dropLast_cons_of_ne_nil hparts] at hp
    rcases List.mem_cons.1 hp with rfl | hp
    · exact hne
    · exact hcut.gap_ne part hp
  last part hp := by
    rw [List.getLast?_cons_of_ne_nil hparts] at hp
    exact hcut.last part hp

/-- Behind a text that does not end in a separator, there are no separators at its end. -/
theorem eq_nil_of_separators {s rest : Text} (hlast : ∀ c ∈ (s ++ rest).getLast?, isSeparator c = false)
    (hrest : ∀ c ∈ rest, isSeparator c = true) : rest = [] := by
  cases hl : rest.getLast? with
  | none => exact List.getLast?_eq_none_iff.1 hl
  | some c =>
    rw [List.getLast?_append, hl] at hlast
    have hc := hrest c (List.mem_of_getLast? hl)
    rw [hlast c rfl] at hc
    contradiction

theorem exists_cut (hr : readTokens g h pos t = .ok tokens) (hlast : ∀ c ∈ t.getLast?, isSeparator c = false) :
    ∃ parts, Cut g t tokens parts := by
  fun_induction readTokens g h pos t generalizing tokens with
  | case1 =>
    cases hr
    exact ⟨[], .nil⟩
  | case2 => contradiction
  | case3 pos c t' first hf ih =>
    obtain ⟨others, hothers, rfl⟩ := Outcome.map_eq_ok.1 hr
    obtain ⟨token, rest⟩ := first
    have hwhole := eq_append_of_readToken hf
    have hsplit := List.takeWhile_append_dropWhile (p := isSeparator) (l := rest)
    have hgap : ∀ c ∈ rest.takeWhile isSeparator, isSeparator c = true := List.all_eq_true.1 List.all_takeWhile
    by_cases hend : rest.dropWhile isSeparator = []
    · -- the token is the last one
      rw [hend, List.append_nil] at hsplit
      rw [hsplit] at hgap
      rw [hwhole] at hlast
      obtain rfl := eq_nil_of_separators hlast hgap
      obtain rfl : [] = others := by simpa [readTokens] using hothers
      rw [hwhole, List.append_nil]
      exact ⟨_, .single g token⟩
    · have heq : c :: t' = token.piece g ++ rest.takeWhile isSeparator ++ rest.dropWhile isSeparator := by
        rw [List.append_assoc, hsplit, hwhole]
      have htail : ∀ c ∈ (rest.dropWhile isSeparator).getLast?, isSeparator c = false := by
        intro d hd
        refine hlast d ?_
        rw [heq, List.getLast?_append, Option.mem_def.1 hd]
        rfl
      obtain ⟨parts, hcut⟩ := ih hothers htail
      have hparts : parts ≠ [] := by
        rintro rfl
        exact hend hcut.text_eq
      rw [heq]
      exact ⟨_, hcut.cons hgap (gap_ne_nil hf · hend) hparts⟩

/-- **Tokens lose nothing of their text, and their ranges are exact.** A text is the blanks that trimming takes
off its front, then the pieces of its tokens with gaps of separators between them, then the blanks that trimming
takes off its end. The bytes at the range of a token are those of its text; the ranges are ordered and apart; and
the text of a term is never empty. -/
theorem ofText_lossless {g : Grammar} {t : Text} (hsize : Text.byteSize t < 2 ^ 32) {tokens : List Token}
    (hr : ofText g t = .ok tokens) :
    (∃ parts, Cut g (Text.trim t) tokens parts ∧
      t = Text.leadingBlanks t ++ (parts.flatMap fun part => part.1.piece g ++ part.2) ++
        Text.trailingBlanks (Text.trimStart t)) ∧
    (∀ token ∈ tokens, token.StandsIn 0 t ∧
      (Text.bytes t).extract token.start token.stop = Text.bytes token.text) ∧
    (tokens.Pairwise fun a b => a.stop < b.start) ∧
    ∀ token ∈ tokens, token.kind = .leaf → token.text ≠ [] := by
  obtain ⟨h, -⟩ := Grammar.reading_eq_ok.1 hr
  rw [ofText_eq h hsize, Outcome.mapError_eq_ok, tokensAt] at hr
  have htrimmed := Text.trimmed_trim t
  obtain ⟨parts, hcut⟩ := exists_cut hr fun c hc => isSeparator_of_not_isBlank (htrimmed.2 c hc)
  obtain ⟨_, hrun⟩ := exists_runs_of_ok hr
  refine ⟨⟨parts, hcut, ?_⟩, fun token hm => ?_, hrun.pairwise,
    hrun.text_ne_nil fun c hc => isSeparator_of_not_isBlank (htrimmed.1 c hc)⟩
  · rw [← hcut.text_eq, Text.leadingBlanks_append_trim_append]
  · have hstands := (hrun.standsIn token hm).within (Text.restAt_trim 0 t)
    refine ⟨hstands, ?_⟩
    obtain ⟨after, hstart⟩ := hstands.start
    rw [hstands.stop, hstart.extract_bytes]

/-- Blanks of three bytes in front and a line break behind; a letter of two bytes, a group with blanks inside,
and a term right behind its bracket. -/
theorem ofText_lossless_group :
    Text.byteSize ['\u3000', 'é', ' ', '\t', '\x7b', ' ', 'b', ' ', '\x7d', 'c', '\n'] < 2 ^ 32 ∧
    ofText {} ['\u3000', 'é', ' ', '\t', '\x7b', ' ', 'b', ' ', '\x7d', 'c', '\n'] =
      .ok [⟨.leaf, ['é'], 3, 5⟩, ⟨.group, [' ', 'b', ' '], 8, 11⟩, ⟨.leaf, ['c'], 12, 13⟩] ∧
    (Text.bytes ['\u3000', 'é', ' ', '\t', '\x7b', ' ', 'b', ' ', '\x7d', 'c', '\n']).extract 8 11 =
      Text.bytes [' ', 'b', ' '] := by
  have hsize : Text.byteSize ['\u3000', 'é', ' ', '\t', '\x7b', ' ', 'b', ' ', '\x7d', 'c', '\n'] < 2 ^ 32 := by decide
  have hr : ofText {} ['\u3000', 'é', ' ', '\t', '\x7b', ' ', 'b', ' ', '\x7d', 'c', '\n'] =
      .ok [⟨.leaf, ['é'], 3, 5⟩, ⟨.group, [' ', 'b', ' '], 8, 11⟩, ⟨.leaf, ['c'], 12, 13⟩] := rfl
  exact ⟨hsize, hr, ((ofText_lossless hsize hr).2.1 ⟨.group, [' ', 'b', ' '], 8, 11⟩ (by simp)).2⟩

end TermTree.Token
