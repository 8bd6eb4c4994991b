/-
Which texts are read while a text is read, and where they stand. The inside of a group is read as a text of its
own, and so are the insides of its groups, at any depth. All of them stand within the whole text, at the offset
at which they are read (`Reached.restAt`). A fault of the whole is found in one of them: either it cannot be cut
into tokens, or one of its terms cannot be read (`Reached.tokensAt_eq_error_or_termFails`).
-/
import TermTree.Proofs.Token.Run
import TermTree.Proofs.Tree.Exact

namespace TermTree.Tree
open Token

/-- While the text `t` is read, the text `u` is read at `pos`: it is `t` itself, or stands in brackets in a text
that is read. -/
inductive Reached (g : Grammar) (t : Text) : Nat → Text → Prop where
  | whole : Reached g t 0 t
  | inside {h : g.Valid} {pos pos' : Nat} {u u' : Text} {tokens : List Token} {token : Token} :
      Reached g t pos u → Runs g h (pos + Text.byteSize (Text.leadingBlanks u)) (Text.trim u) tokens pos' u' →
      token ∈ tokens → token.kind = .group → Reached g t token.start token.text

variable {g : Grammar} {h : g.Valid} {pos : Nat} {t u : Text}

theorem Reached.restAt (hu : Reached g t pos u) : ∃ after, Text.RestAt 0 t pos (u ++ after) := by
  induction hu with
  | whole => exact ⟨[], by rw [List.append_nil]; exact .start 0 t⟩
  | @inside h pos _ u _ _ token _ hrun hm _ ih =>
    obtain ⟨after, hu⟩ := ih
    obtain ⟨after', htoken⟩ := (((hrun.standsIn token hm).within (Text.restAt_trim pos u)).within hu).start
    exact ⟨after', htoken⟩

/-- The tokens of a text that is read stand within the whole text. -/
theorem Reached.standsIn {pos' : Nat} {u' : Text} {tokens : List Token} (hu : Reached g t pos u)
    (hrun : Runs g h (pos + Text.byteSize (Text.leadingBlanks u)) (Text.trim u) tokens pos' u') :
    ∀ token ∈ tokens, token.StandsIn 0 t := by
  intro token hm
  obtain ⟨after, hafter⟩ := hu.restAt
  exact ((hrun.standsIn token hm).within (Text.restAt_trim pos u)).within hafter

theorem readAt_eq_error {fault : Malformed} (hr : readAt g h pos t = .error fault) :
    tokensAt g h pos t = .error fault ∨
      ∃ tokens, tokensAt g h pos t = .ok tokens ∧ ∃ token ∈ tokens, ofToken g h token = .error fault := by
  rw [readAt_eq] at hr
  cases ht : tokensAt g h pos t with
  | error e =>
    rw [ht] at hr
    cases hr
    exact .inl rfl
  | ok tokens =>
    rw [ht] at hr
    have hmap : (tokens.mapM (ofToken g h)).map (group g) = .error fault := hr
    exact .inr ⟨tokens, rfl, Outcome.exists_of_mapM_eq_error (Outcome.map_eq_error.1 hmap)⟩

/-- A term of a text that is read while `t` is read is at fault. -/
def TermFails (g : Grammar) (t : Text) (fault : Malformed) : Prop :=
  ∃ (h : g.Valid) (pos : Nat) (u : Text) (tokens : List Token), Reached g t pos u ∧
    tokensAt g h pos u = .ok tokens ∧
      ∃ token ∈ tokens, token.kind = .leaf ∧ Term.readAt g h token.start token.text = .error fault

/-- **A fault of the whole is found in a text that is read on the way**: when that is cut into tokens, or in one
of its terms. -/
theorem Reached.tokensAt_eq_error_or_termFails {pos : Nat} {u : Text} {fault : Malformed} (hu : Reached g t pos u)
    (hr : readAt g h pos u = .error fault) :
    (∃ pos' u', Reached g t pos' u' ∧ tokensAt g h pos' u' = .error fault) ∨ TermFails g t fault := by
  rcases readAt_eq_error hr with he | ⟨tokens, ht, token, hm, he⟩
  · exact .inl ⟨pos, u, hu, he⟩
  · rw [ofToken] at he
    cases hk : token.kind with
    | leaf =>
      rw [hk] at he
      exact .inr ⟨h, pos, u, tokens, hu, ht, token, hm, hk, Outcome.map_eq_error.1 he⟩
    | group =>
      -- the fault is found in the inside of this group, or still deeper
      rw [hk] at he
      have hlt := length_lt_of_mem_tokensAt ht hm hk
      obtain ⟨_, hrun⟩ := exists_runs_of_ok ht
      exact (hu.inside hrun hm hk).tokensAt_eq_error_or_termFails he
termination_by u.length

end TermTree.Tree
