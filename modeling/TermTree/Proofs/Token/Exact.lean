/-
The tokens of a text with the places where they stand in place of the offsets that are told of them. Nothing can go
wrong but the text itself, and moving the text moves the places and nothing else, so this is how the theory reads.
-/
import TermTree.Token

namespace TermTree.Token

/-- Reads the tokens of a text that does not begin with a separator. -/
@[semireducible]
def readTokens (g : Grammar) (h : g.Valid) (pos : Nat) (t : Text) : Except Malformed (List Token) :=
  match t with
  | [] => .ok []
  | c :: t' =>
    match _ : readToken g h pos (c :: t') with
    | .error e => .error e
    | .ok first =>
      (readTokens g h (pos + Text.byteSize (first.1.piece g ++ first.2.takeWhile isSeparator))
        (first.2.dropWhile isSeparator)).map (first.1 :: ·)
termination_by t.length
decreasing_by exact length_lt_of_readToken ‹_›

theorem readTokens_cons (g : Grammar) (h : g.Valid) (pos : Nat) (c : Char) (t : Text) :
    readTokens g h pos (c :: t) =
      match readToken g h pos (c :: t) with
      | .error e => .error e
      | .ok first =>
        (readTokens g h (pos + Text.byteSize (first.1.piece g ++ first.2.takeWhile isSeparator))
          (first.2.dropWhile isSeparator)).map (first.1 :: ·) := by
  rw [readTokens]
  split <;> simp_all

theorem readTokens_eq_nil {g : Grammar} {h : g.Valid} {pos : Nat} {t : Text} (hr : readTokens g h pos t = .ok []) :
    t = [] := by
  cases t with
  | nil => rfl
  | cons c t =>
    rw [readTokens_cons] at hr
    split at hr
    · contradiction
    · obtain ⟨_, -, he⟩ := Outcome.map_eq_ok.1 hr
      contradiction

/-- The first token is read at the front of the text, the others behind it and its separators. -/
theorem readTokens_eq_cons {g : Grammar} {h : g.Valid} {pos : Nat} {t : Text} {token : Token} {tokens : List Token}
    (hr : readTokens g h pos t = .ok (token :: tokens)) :
    t ≠ [] ∧ ∃ rest pos', readToken g h pos t = .ok (token, rest) ∧
      readTokens g h pos' (rest.dropWhile isSeparator) = .ok tokens := by
  cases t with
  | nil => simp [readTokens] at hr
  | cons c t =>
    rw [readTokens_cons] at hr
    split at hr
    · contradiction
    · next first hfirst =>
      obtain ⟨others, hothers, he⟩ := Outcome.map_eq_ok.1 hr
      cases he
      exact ⟨by simp, first.2, _, hfirst, hothers⟩

/-- The tokens of a text that stands at `pos`, with their places; the blanks at its ends belong to no token. -/
def tokensAt (g : Grammar) (h : g.Valid) (pos : Nat) (t : Text) : Except Malformed (List Token) :=
  readTokens g h (pos + Text.byteSize (Text.leadingBlanks t)) (Text.trim t)

/-- A token of a text that is read without its outer blanks is no longer than the text, and the
inside of a group is shorter. -/
theorem length_lt_of_mem_readTokens {g : Grammar} {h : g.Valid} {pos : Nat} {t : Text}
    {tokens : List Token} (hr : readTokens g h pos t = .ok tokens) {token : Token} (hm : token ∈ tokens)
    (hk : token.kind = .group) : token.text.length < t.length := by
  fun_induction readTokens g h pos t generalizing tokens with
  | case1 =>
    simp only [Except.ok.injEq] at hr
    simp [← hr] at hm
  | case2 => simp at hr
  | case3 pos c t' first hf ih =>
    obtain ⟨others, ho, rfl⟩ := Outcome.map_eq_ok.1 hr
    rcases List.mem_cons.1 hm with rfl | hm
    · rw [eq_append_of_readToken hf]
      have := List.length_pos_iff.2 h.bracketOpen_ne
      simp only [piece, hk, List.length_append]
      omega
    · exact Nat.lt_trans (ih ho hm) (length_lt_of_readToken hf)

theorem length_lt_of_mem_tokensAt {g : Grammar} {h : g.Valid} {pos : Nat} {t : Text}
    {tokens : List Token} (hr : tokensAt g h pos t = .ok tokens) {token : Token} (hm : token ∈ tokens)
    (hk : token.kind = .group) : token.text.length < t.length :=
  Nat.lt_of_lt_of_le (length_lt_of_mem_readTokens hr hm hk) (Text.length_trim_le t)

end TermTree.Token
