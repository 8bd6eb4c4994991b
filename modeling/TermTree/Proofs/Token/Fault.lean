/-
Where a text cannot be cut into tokens. A fault names an offset, and what stands there shows the fault:
`Malformed.PointsInto` says what that is for each kind of fault. The token readers point at the bracket that opened
the group, or at the quote that opened the span (`pointsInto_of_tokensAt`).
-/
import TermTree.Proofs.Grammar.Span
import TermTree.Proofs.Token.Run

namespace TermTree

/-- The offset of the fault is one of the text `t`, which stands at `pos`, and what stands there is the culprit:
the opening bracket of a group, the opening quote of a span, or a place inside the text of a term where no
delimiter stands. -/
def Malformed.PointsInto (g : Grammar) (pos : Nat) (t : Text) : Malformed → Prop
  | .unterminatedGroup o => ∃ rest, Text.RestAt pos t o rest ∧ g.bracketOpen <+: rest
  | .unterminatedQuote o => ∃ rest, Text.RestAt pos t o rest ∧ g.quoteOpen <+: rest
  | .missingDelimiter o term => ∃ start after rest, Text.RestAt pos t start (term ++ after) ∧
      Text.RestAt start term o rest ∧ rest ≠ [] ∧ ∀ d ∈ g.delimiters, ¬ d <+: rest

namespace Malformed
variable {g : Grammar} {pos o : Nat} {t u after : Text} {fault : Malformed}

/-- What is a culprit in a part of a text is one in the text. -/
theorem PointsInto.within (hat : Text.RestAt pos t o (u ++ after)) (hf : fault.PointsInto g o u) :
    fault.PointsInto g pos t := by
  cases fault with
  | unterminatedGroup =>
    obtain ⟨rest, hrest, hopen⟩ := hf
    exact ⟨rest ++ after, hat.within hrest, hopen.trans (List.prefix_append rest after)⟩
  | unterminatedQuote =>
    obtain ⟨rest, hrest, hopen⟩ := hf
    exact ⟨rest ++ after, hat.within hrest, hopen.trans (List.prefix_append rest after)⟩
  | missingDelimiter =>
    obtain ⟨start, behind, rest, hterm, hrest⟩ := hf
    have hwhole := hat.within hterm
    rw [List.append_assoc] at hwhole
    exact ⟨start, behind ++ after, rest, hwhole, hrest⟩

theorem PointsInto.exists_restAt (h : g.Valid) (hf : fault.PointsInto g pos t) :
    ∃ rest, Text.RestAt pos t fault.offset rest ∧ rest ≠ [] := by
  cases fault with
  | unterminatedGroup =>
    obtain ⟨rest, hrest, hopen⟩ := hf
    exact ⟨rest, hrest, hopen.ne_nil h.bracketOpen_ne⟩
  | unterminatedQuote =>
    obtain ⟨rest, hrest, hopen⟩ := hf
    exact ⟨rest, hrest, hopen.ne_nil h.quoteOpen_ne⟩
  | missingDelimiter =>
    obtain ⟨start, behind, rest, hterm, hrest, hne, -⟩ := hf
    exact ⟨rest ++ behind, hterm.within hrest, by simp [hne]⟩

end Malformed

namespace Token
variable {g : Grammar} {h : g.Valid} {start opened depth pos : Nat} {whole t : Text} {fault : Malformed}

theorem restAt_of_quotedAt {body rest : Text} (hq : g.quotedAt t = .span body rest) :
    Text.RestAt pos t (pos + Text.byteSize (g.quote body)) rest :=
  ⟨g.quote body, Grammar.eq_append_of_quotedAt hq, rfl⟩

theorem pointsInto_of_quotedAt_unclosed (hat : Text.RestAt start whole pos t) (hq : g.quotedAt t = .unclosed) :
    (Malformed.unterminatedQuote pos).PointsInto g start whole :=
  ⟨t, hat, Grammar.prefix_of_quotedAt_unclosed hq⟩

/-- The scanner of a group is at fault for the group itself, or for a span inside it. -/
theorem pointsInto_of_scanGroup (hopened : (Malformed.unterminatedGroup opened).PointsInto g start whole)
    (hat : Text.RestAt start whole pos t) (hs : scanGroup g h opened depth pos t = .error fault) :
    fault.PointsInto g start whole := by
  fun_induction scanGroup g h opened depth pos t with
  | case1 =>
    -- the text ends, wherever the scanner was: the bracket at `opened` is to blame
    cases hs
    exact hopened
  | case2 => contradiction
  | case3 pos c t rest hclose depth ih => exact ih (hat.trans (.of_after? hclose)) (Outcome.map_eq_error.1 hs)
  | case4 depth pos c t _ rest hopen ih => exact ih (hat.trans (.of_after? hopen)) (Outcome.map_eq_error.1 hs)
  | case5 depth pos c t _ _ hq =>
    cases hs
    exact pointsInto_of_quotedAt_unclosed hat hq
  | case6 depth pos c t _ _ body rest hq ih =>
    exact ih (hat.trans (restAt_of_quotedAt hq)) (Outcome.map_eq_error.1 hs)
  | case7 depth pos c t _ _ _ ih => exact ih (hat.trans (.behind pos [c] t)) (Outcome.map_eq_error.1 hs)

theorem pointsInto_of_scanLeaf (hat : Text.RestAt start whole pos t) (hs : scanLeaf g h pos t = .error fault) :
    fault.PointsInto g start whole := by
  fun_induction scanLeaf g h pos t with
  | case1 => contradiction
  | case2 pos c t hq =>
    cases hs
    exact pointsInto_of_quotedAt_unclosed hat hq
  | case3 pos c t body rest hq ih => exact ih (hat.trans (restAt_of_quotedAt hq)) (Outcome.map_eq_error.1 hs)
  | case4 => contradiction
  | case5 pos c t _ _ ih => exact ih (hat.trans (.behind pos [c] t)) (Outcome.map_eq_error.1 hs)

theorem pointsInto_of_readToken (hr : readToken g h pos t = .error fault) : fault.PointsInto g pos t := by
  rw [readToken] at hr
  split at hr
  · next inside hopen =>
    have hopened : (Malformed.unterminatedGroup pos).PointsInto g pos t :=
      ⟨t, .start pos t, inside, (Text.eq_append_of_after? hopen).symm⟩
    exact pointsInto_of_scanGroup hopened (.of_after? hopen) (Outcome.map_eq_error.1 hr)
  · exact pointsInto_of_scanLeaf (.start pos t) (Outcome.map_eq_error.1 hr)

/-- **A text that cannot be cut into tokens has a culprit where the fault says.** -/
theorem pointsInto_of_tokensAt (hr : tokensAt g h pos t = .error fault) : fault.PointsInto g pos t := by
  obtain ⟨tokens, pos', t', hrun, he⟩ := exists_runs_of_error hr
  have hat := hrun.restAt
  rw [← List.append_nil t'] at hat
  exact ((pointsInto_of_readToken he).within hat).within (Text.restAt_trim pos t)

end Token
end TermTree
