/-
The token loop, step by step. `Runs` says how far the loop comes and which tokens it reads on the way, whether or
not it comes to the end of the text. Where a text is read, the loop runs to its end; where it is not, the loop
runs to a place where a token cannot be read (`exists_runs_of_ok`, `exists_runs_of_error`). Each token that the
loop reads holds exactly the text at its range (`Runs.standsIn`).
-/
import TermTree.Proofs.Text.Offset
import TermTree.Proofs.Text.Seam
import TermTree.Proofs.Token.Scan

namespace TermTree.Token

/-- From the text `t` at `pos` the token loop comes to the text `t'` at `pos'`, reading `tokens` on its way. -/
inductive Runs (g : Grammar) (h : g.Valid) : Nat → Text → List Token → Nat → Text → Prop where
  | stay {pos : Nat} {t : Text} : Runs g h pos t [] pos t
  | step {pos pos' : Nat} {c : Char} {t rest t' : Text} {token : Token} {tokens : List Token} :
      readToken g h pos (c :: t) = .ok (token, rest) →
      Runs g h (pos + Text.byteSize (token.piece g ++ rest.takeWhile isSeparator)) (rest.dropWhile isSeparator)
        tokens pos' t' →
      Runs g h pos (c :: t) (token :: tokens) pos' t'

/-- The range of the token, in the text `t` that stands at `pos`, is where its own text stands. -/
structure StandsIn (pos : Nat) (t : Text) (token : Token) : Prop where
  start : ∃ after, Text.RestAt pos t token.start (token.text ++ after)
  stop : token.stop = token.start + Text.byteSize token.text

variable {g : Grammar} {h : g.Valid} {pos pos' : Nat} {t t' : Text} {tokens : List Token}

theorem exists_runs_of_ok (hr : readTokens g h pos t = .ok tokens) : ∃ pos', Runs g h pos t tokens pos' [] := by
  fun_induction readTokens g h pos t generalizing tokens with
  | case1 pos =>
    cases hr
    exact ⟨pos, .stay⟩
  | case2 => contradiction
  | case3 pos c t first hf ih =>
    obtain ⟨others, hothers, rfl⟩ := Outcome.map_eq_ok.1 hr
    obtain ⟨pos', hrun⟩ := ih hothers
    exact ⟨pos', .step hf hrun⟩

theorem exists_runs_of_error {fault : Malformed} (hr : readTokens g h pos t = .error fault) :
    ∃ tokens pos' t', Runs g h pos t tokens pos' t' ∧ readToken g h pos' t' = .error fault := by
  fun_induction readTokens g h pos t with
  | case1 => contradiction
  | case2 pos c t e he =>
    cases hr
    exact ⟨[], pos, c :: t, .stay, he⟩
  | case3 pos c t first hf ih =>
    obtain ⟨tokens, pos', t', hrun, he⟩ := ih (Outcome.map_eq_error.1 hr)
    exact ⟨first.1 :: tokens, pos', t', .step hf hrun, he⟩

namespace StandsIn

theorem within {o : Nat} {u after : Text} {token : Token} (ht : Text.RestAt pos t o (u ++ after))
    (hs : token.StandsIn o u) : token.StandsIn pos t := by
  obtain ⟨⟨after', hstart⟩, hstop⟩ := hs
  refine ⟨⟨after' ++ after, ?_⟩, hstop⟩
  rw [← List.append_assoc]
  exact ht.within hstart

/-- The range of a token lies within the text. -/
theorem bounds {token : Token} (hs : token.StandsIn pos t) :
    pos ≤ token.start ∧ token.start ≤ token.stop ∧ token.stop ≤ pos + Text.byteSize t := by
  obtain ⟨⟨after, hstart⟩, hstop⟩ := hs
  have hle := hstart.add_byteSize_le
  exact ⟨hstart.start_le, by omega, by omega⟩

end StandsIn

theorem standsIn_of_readToken {token : Token} {rest : Text} (hr : readToken g h pos t = .ok (token, rest)) :
    token.StandsIn pos t := by
  have hwhole := eq_append_of_readToken hr
  subst hwhole
  rcases readToken_eq_ok.1 hr with ⟨_, text, -, -, rfl⟩ | ⟨-, text, -, rfl⟩
  · refine ⟨⟨g.bracketClose ++ rest, ?_⟩, rfl⟩
    simp only [piece, List.append_assoc]
    exact .behind pos g.bracketOpen _
  · exact ⟨⟨rest, .start pos _⟩, rfl⟩

theorem restAt_of_readToken {token : Token} {rest : Text} (hr : readToken g h pos t = .ok (token, rest)) :
    Text.RestAt pos t (pos + Text.byteSize (token.piece g ++ rest.takeWhile isSeparator))
      (rest.dropWhile isSeparator) := by
  refine ⟨token.piece g ++ rest.takeWhile isSeparator, ?_, rfl⟩
  rw [List.append_assoc, List.takeWhile_append_dropWhile]
  exact eq_append_of_readToken hr

/-- Behind the text of a term that is not the last token there is a separator. -/
theorem gap_ne_nil {token : Token} {rest : Text} (hr : readToken g h pos t = .ok (token, rest))
    (hk : token.kind = .leaf) (hne : rest.dropWhile isSeparator ≠ []) : rest.takeWhile isSeparator ≠ [] := by
  rcases readToken_eq_ok.1 hr with ⟨_, text, -, -, rfl⟩ | ⟨-, text, hs, rfl⟩
  · contradiction
  · cases rest with
    | nil => contradiction
    | cons c rest =>
      have hc : isSeparator c = true := hs.isSeparator_of_mem_head? (by simp)
      rw [List.takeWhile_cons_of_pos hc]
      exact List.cons_ne_nil _ _

namespace Runs

theorem restAt (hrun : Runs g h pos t tokens pos' t') : Text.RestAt pos t pos' t' := by
  induction hrun with
  | stay => exact .start _ _
  | step hr _ ih => exact (restAt_of_readToken hr).trans ih

theorem ne_nil (hrun : Runs g h pos t tokens pos' t') {token : Token} (hm : token ∈ tokens) : t ≠ [] := by
  cases hrun with
  | stay => contradiction
  | step => simp

theorem exists_readToken (hrun : Runs g h pos t tokens pos' t') {token : Token} (hm : token ∈ tokens) :
    ∃ o u rest, Text.RestAt pos t o u ∧ readToken g h o u = .ok (token, rest) := by
  induction hrun with
  | stay => contradiction
  | step hr _ ih =>
    rcases List.mem_cons.1 hm with rfl | hm
    · exact ⟨_, _, _, .start _ _, hr⟩
    · obtain ⟨o, u, rest, hu, hread⟩ := ih hm
      exact ⟨o, u, rest, (restAt_of_readToken hr).trans hu, hread⟩

/-- **Each token that the loop reads holds exactly the text at its range.** -/
theorem standsIn (hrun : Runs g h pos t tokens pos' t') : ∀ token ∈ tokens, token.StandsIn pos t := by
  intro token hm
  obtain ⟨o, u, rest, hu, hread⟩ := hrun.exists_readToken hm
  rw [← List.append_nil u] at hu
  exact (standsIn_of_readToken hread).within hu

/-- The tokens that the loop reads are ordered, and no two of them touch: a bracket or a separator stands in
between. -/
theorem pairwise (hrun : Runs g h pos t tokens pos' t') : tokens.Pairwise fun a b => a.stop < b.start := by
  induction hrun with
  | stay => exact .nil
  | @step pos _ c t rest _ token tokens hr hrun ih =>
    refine .cons (fun next hm => ?_) ih
    have hnext := ((hrun.standsIn) next hm).bounds.1
    have hne := hrun.ne_nil hm
    have hgap := gap_ne_nil hr
    rcases readToken_eq_ok.1 hr with ⟨_, text, -, -, rfl⟩ | ⟨-, text, -, rfl⟩
    · have := Text.byteSize_pos h.bracketClose_ne
      simp only [piece, Text.byteSize_append] at hnext
      simp only
      omega
    · have := Text.byteSize_pos (hgap rfl hne)
      simp only [piece, Text.byteSize_append] at hnext
      simp only
      omega

/-- The text of a term is not empty, for the loop never stands in front of a separator. -/
theorem text_ne_nil (hrun : Runs g h pos t tokens pos' t') (hsep : ∀ c ∈ t.head?, isSeparator c = false) :
    ∀ token ∈ tokens, token.kind = .leaf → token.text ≠ [] := by
  induction hrun with
  | stay => simp
  | @step pos _ c t rest _ token tokens hr _ ih =>
    intro leaf hm hk
    rcases List.mem_cons.1 hm with rfl | hm
    · rcases readToken_eq_ok.1 hr with ⟨_, text, -, -, rfl⟩ | ⟨-, text, hs, rfl⟩
      · contradiction
      · rintro rfl
        have hscan : scanLeaf g h pos (c :: t) = .ok ([], rest) := scanLeaf_eq_ok.2 hs
        have hc := isSeparator_of_scanLeaf_nil hscan
        rw [hsep c (by simp)] at hc
        contradiction
    · exact ih (fun _ => Text.head?_dropWhile) leaf hm hk

end Runs
end TermTree.Token
