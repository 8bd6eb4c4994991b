/-
Reading a text that stands further back. Positions only say where tokens and faults are: with `n` more
bytes in front, a reader finds the same tokens and the same faults, each `n` bytes further back. Every
reader of the library has such an equation, up to the one for trees (`Tree.readAt_shift`).
-/
import TermTree.Proofs.Tree.Exact

namespace TermTree

/-- The same token in a text that has `n` more bytes in front. -/
def Token.shift (n : Nat) (token : Token) : Token :=
  { token with start := n + token.start, stop := n + token.stop }

namespace Token

theorem scanGroup_shift (g : Grammar) (h : g.Valid) (n opened depth pos : Nat) (t : Text) :
    scanGroup g h (n + opened) depth (n + pos) t =
      (scanGroup g h opened depth pos t).mapError (Malformed.shift n) := by
  fun_induction scanGroup g h opened depth pos t with
  | case1 => simp [scanGroup, Outcome.mapError_error, Malformed.shift]
  | case2 pos c t' rest hc => simp only [scanGroup_cons, hc, Outcome.mapError_ok]
  | case3 pos c t' rest hc depth ih =>
    simp only [scanGroup_cons, hc, ← Outcome.map_mapError, ← ih, Nat.add_assoc]
  | case4 depth pos c t' hc rest ho ih =>
    simp only [scanGroup_cons, hc, ho, ← Outcome.map_mapError, ← ih, Nat.add_assoc]
  | case5 depth pos c t' hc ho hq =>
    simp only [scanGroup_cons, hc, ho, hq, Outcome.mapError_error, Malformed.shift]
  | case6 depth pos c t' hc ho body rest hq ih =>
    simp only [scanGroup_cons, hc, ho, hq, ← Outcome.map_mapError, ← ih, Nat.add_assoc]
  | case7 depth pos c t' hc ho hq ih =>
    simp only [scanGroup_cons, hc, ho, hq, ← Outcome.map_mapError, ← ih, Nat.add_assoc]

theorem scanLeaf_shift (g : Grammar) (h : g.Valid) (n pos : Nat) (t : Text) :
    scanLeaf g h (n + pos) t = (scanLeaf g h pos t).mapError (Malformed.shift n) := by
  fun_induction scanLeaf g h pos t with
  | case1 => simp only [scanLeaf, Outcome.mapError_ok]
  | case2 pos c t' hq => simp only [scanLeaf_cons, hq, Outcome.mapError_error, Malformed.shift]
  | case3 pos c t' body rest hq ih =>
    simp only [scanLeaf_cons, hq, ← Outcome.map_mapError, ← ih, Nat.add_assoc]
  | case4 pos c t' hq hsep => simp only [scanLeaf_cons, hq, hsep, if_true, Outcome.mapError_ok]
  | case5 pos c t' hq hsep ih =>
    simp only [scanLeaf_cons, hq, hsep, ← Outcome.map_mapError, ← ih, Nat.add_assoc]
    simp

theorem readToken_shift (g : Grammar) (h : g.Valid) (n pos : Nat) (t : Text) :
    readToken g h (n + pos) t =
      ((readToken g h pos t).map fun first => (first.1.shift n, first.2)).mapError (Malformed.shift n) := by
  simp only [readToken]
  split
  · rw [Nat.add_assoc, scanGroup_shift, Outcome.map_mapError, Outcome.map_map]
    simp only [shift, Nat.add_assoc]
  · rw [scanLeaf_shift, Outcome.map_mapError, Outcome.map_map]
    simp only [shift, Nat.add_assoc]

theorem piece_shift (g : Grammar) (n : Nat) (token : Token) : (token.shift n).piece g = token.piece g := rfl

theorem readTokens_shift (g : Grammar) (h : g.Valid) (n pos : Nat) (t : Text) :
    readTokens g h (n + pos) t =
      ((readTokens g h pos t).map (List.map (shift n))).mapError (Malformed.shift n) := by
  fun_induction readTokens g h pos t with
  | case1 => simp only [readTokens, Outcome.map_ok, Outcome.mapError_ok, List.map_nil]
  | case2 pos c t' e he =>
    simp only [readTokens_cons, readToken_shift, he, Outcome.map_error, Outcome.mapError_error]
  | case3 pos c t' first hf ih =>
    simp only [readTokens_cons, readToken_shift, hf, Outcome.map_ok, Outcome.mapError_ok, piece_shift,
      Nat.add_assoc]
    rw [ih, Outcome.map_mapError, Outcome.map_map, Outcome.map_map]
    rfl

theorem tokensAt_shift (g : Grammar) (h : g.Valid) (n pos : Nat) (t : Text) :
    tokensAt g h (n + pos) t =
      ((tokensAt g h pos t).map (List.map (shift n))).mapError (Malformed.shift n) := by
  rw [tokensAt, tokensAt, Nat.add_assoc, readTokens_shift]

end Token

namespace Term

theorem readContent_shift (g : Grammar) (bare : Text → Text × Text) (n pos : Nat) (t : Text) :
    readContent g bare (n + pos) t = (readContent g bare pos t).mapError (Malformed.shift n) := by
  simp only [readContent]
  split <;> simp only [Outcome.mapError_ok, Outcome.mapError_error, Malformed.shift]

theorem readParameters_shift (g : Grammar) (h : g.Valid) (whole : Text) (n pos : Nat) (t : Text) :
    readParameters g h whole (n + pos) t =
      (readParameters g h whole pos t).mapError (Malformed.shift n) := by
  fun_induction readParameters g h whole pos t with
  | case1 => simp only [readParameters, Outcome.mapError_ok]
  | case2 pos c t' hd => simp only [readParameters_cons, hd, Outcome.mapError_error, Malformed.shift]
  | case3 pos c t' d hd e he =>
    rw [readValue] at he
    simp only [readParameters_cons, hd, readValue, Nat.add_assoc, readContent_shift, he, Outcome.mapError_error]
  | case4 pos c t' d hd value hv ih =>
    rw [readValue] at hv
    simp only [readParameters_cons, hd, readValue, Nat.add_assoc, readContent_shift, hv, Outcome.mapError_ok, ih,
      Outcome.map_mapError]

theorem readAt_shift (g : Grammar) (h : g.Valid) (n pos : Nat) (t : Text) :
    readAt g h (n + pos) t = (readAt g h pos t).mapError (Malformed.shift n) := by
  simp only [readAt, readName, readContent_shift]
  cases readContent g (fun t => (t.takeWhile isPlainChar, t.dropWhile isPlainChar)) pos t with
  | error e => rfl
  | ok name =>
    simp only [Outcome.mapError_ok, Nat.add_assoc, readParameters_shift, Outcome.map_mapError]

end Term

namespace Tree

/-- **A text with `n` more bytes in front reads as the same tree, or has the same fault `n` bytes further
back**, also where the fault lies inside groups. -/
theorem readAt_shift (g : Grammar) (h : g.Valid) (n pos : Nat) (t : Text) :
    readAt g h (n + pos) t = (readAt g h pos t).mapError (Malformed.shift n) := by
  rw [readAt_eq, readAt_eq, Token.tokensAt_shift]
  cases ht : Token.tokensAt g h pos t with
  | error e => rfl
  | ok tokens =>
    have hmap : (tokens.map (Token.shift n)).mapM (ofToken g h) =
        (tokens.mapM (ofToken g h)).mapError (Malformed.shift n) := by
      refine Outcome.mapM_map_eq_mapError fun token hm => ?_
      cases hk : token.kind with
      | leaf => simp only [ofToken, Token.shift, hk, Term.readAt_shift, Outcome.map_mapError]
      | group =>
        have hlt := Token.length_lt_of_mem_tokensAt ht hm hk
        simp only [ofToken, Token.shift, hk]
        exact readAt_shift g h n token.start token.text
    show Except.map (group g) _ = (Except.map (group g) _).mapError _
    rw [hmap, Outcome.map_mapError]
termination_by t.length

end Tree
end TermTree
