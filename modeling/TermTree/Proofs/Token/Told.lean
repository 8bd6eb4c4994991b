/-
What is told of the tokens of a text. Where every place of a text has an offset, tokens and faults are told of the
places where they stand (`tokensFrom_eq`, `ofText_eq`). In a longer text the offsets may be wrong, or there may be none
to tell; but what is told is told of the tokens that the text has (`map_core_of_tokensFrom`).
-/
import TermTree.Proofs.Token.Fault
import TermTree.Proofs.Token.Position

namespace TermTree

theorem Malformed.shift_shift (n k : Nat) (fault : Malformed) : (fault.shift k).shift n = fault.shift (n + k) := by
  cases fault <;> simp only [shift, Nat.add_assoc]

theorem Malformed.shift_zero (fault : Malformed) : fault.shift 0 = fault := by
  cases fault <;> simp only [shift, Nat.zero_add]

namespace Token
variable {g : Grammar} {h : g.Valid} {base pos : Nat} {t : Text} {tokens : List Token}

theorem shift_shift (n k : Nat) (token : Token) : (token.shift k).shift n = token.shift (n + k) := by
  simp only [shift, Nat.add_assoc]

theorem shift_zero (token : Token) : token.shift 0 = token := by
  simp only [shift, Nat.zero_add]

theorem told_eq {token : Token} (hle : token.start ≤ token.stop) (hsize : base + token.stop < UInt32.size) :
    token.told base = .ok (token.shift base) := by
  rw [told, rangeOf_eq hle hsize]
  rfl

theorem toldTokens_eq (hsize : base + (pos + Text.byteSize t) < UInt32.size) :
    toldTokens g h base pos t =
      ((readTokens g h pos t).map (List.map (shift base))).mapError fun fault => .malformed (fault.shift base) := by
  fun_induction readTokens g h pos t with
  | case1 => simp only [toldTokens, Outcome.map_ok, Outcome.mapError_ok, List.map_nil]
  | case2 pos c t fault hf =>
    obtain ⟨rest, hrest, hne⟩ := (pointsInto_of_readToken hf).exists_restAt h
    have hlt := hrest.lt hne
    simp only [toldTokens_cons, hf, Malformed.told_eq (by omega : base + fault.offset < UInt32.size),
      Outcome.map_error, Outcome.mapError_error]
  | case3 pos c t first hf ih =>
    obtain ⟨-, hle, hstop⟩ := (standsIn_of_readToken hf).bounds
    have hbehind := restAt_of_readToken hf
    rw [← List.append_nil (first.2.dropWhile isSeparator)] at hbehind
    have hrest := hbehind.add_byteSize_le
    have htold : first.1.told base = .ok (first.1.shift base) := told_eq hle (by omega)
    simp only [toldTokens_cons, hf, htold, ih (by omega)]
    cases readTokens g h _ (first.2.dropWhile isSeparator) <;> rfl

/-- **Where every place of the text has an offset, that is what is told of it.** -/
theorem tokensFrom_eq (hsize : base + Text.byteSize t < UInt32.size) :
    tokensFrom g h base t =
      ((tokensAt g h 0 t).map (List.map (shift base))).mapError fun fault => .malformed (fault.shift base) := by
  obtain ⟨before, hsplit, hlead⟩ := Text.restAt_trim 0 t
  have htrim := congrArg Text.byteSize hsplit
  rw [Text.byteSize_append, Text.byteSize_append] at htrim
  have hstart : offsetOf base (Text.byteSize (Text.leadingBlanks t)) =
      .ok (base + Text.byteSize (Text.leadingBlanks t)) := offsetOf_eq (by omega)
  have hexact := readTokens_shift g h (Text.byteSize (Text.leadingBlanks t)) 0 (Text.trim t)
  rw [Nat.add_zero] at hexact
  rw [tokensFrom, hstart, tokensAt, Nat.zero_add, hexact]
  show toldTokens g h _ 0 (Text.trim t) = _
  rw [toldTokens_eq (by omega)]
  cases readTokens g h 0 (Text.trim t) with
  | error fault => simp only [Outcome.map_error, Outcome.mapError_error, Malformed.shift_shift]
  | ok tokens =>
    simp only [Outcome.map_ok, Outcome.mapError_ok, List.map_map]
    exact congrArg Except.ok (List.map_congr_left fun token _ => (shift_shift _ _ token).symm)

theorem ofText_eq (hv : g.Valid) (hsize : Text.byteSize t < UInt32.size) :
    ofText g t = (tokensAt g hv 0 t).mapError .malformed := by
  rw [ofText, hv.reading_eq, tokensFrom_eq (by omega)]
  cases tokensAt g hv 0 t with
  | error fault => simp only [Outcome.map_error, Outcome.mapError_error, Malformed.shift_zero]
  | ok tokens =>
    have hsame : tokens.map (shift 0) = tokens := by
      rw [List.map_congr_left fun token _ => shift_zero token, List.map_id']
    simp only [Outcome.map_ok, Outcome.mapError_ok, hsame]

/-! ## Texts of any size -/

/-- What a token is apart from its range. -/
def core (token : Token) : TokenKind × Text := (token.kind, token.text)

theorem map_core_of_toldTokens (hr : toldTokens g h base pos t = .ok tokens) :
    ∃ exact, readTokens g h pos t = .ok exact ∧ exact.map core = tokens.map core := by
  fun_induction toldTokens g h base pos t generalizing tokens with
  | case1 =>
    cases hr
    exact ⟨[], by rw [readTokens], rfl⟩
  | case2 => contradiction
  | case3 pos c t first hf ih =>
    obtain ⟨told, htold, hr⟩ := Outcome.bind_eq_ok.1 hr
    obtain ⟨others, hothers, he⟩ := Outcome.bind_eq_ok.1 hr
    cases he
    obtain ⟨exact, hexact, hcore⟩ := ih hothers
    obtain ⟨hkind, htext⟩ := kind_text_of_told htold
    refine ⟨first.1 :: exact, ?_, ?_⟩
    · rw [readTokens_cons, hf]
      exact Outcome.map_eq_ok.2 ⟨exact, hexact, rfl⟩
    · rw [List.map_cons, List.map_cons, hcore, core, core, hkind, htext]

theorem map_core_of_tokensFrom (hr : tokensFrom g h base t = .ok tokens) :
    ∃ exact, tokensAt g h 0 t = .ok exact ∧ exact.map core = tokens.map core := by
  obtain ⟨start, -, hr⟩ := Outcome.bind_eq_ok.1 hr
  obtain ⟨exact, hexact, hcore⟩ := map_core_of_toldTokens hr
  have hshift := readTokens_shift g h (Text.byteSize (Text.leadingBlanks t)) 0 (Text.trim t)
  rw [hexact, Nat.add_zero] at hshift
  refine ⟨exact.map (shift (Text.byteSize (Text.leadingBlanks t))), ?_, ?_⟩
  · rw [tokensAt, Nat.zero_add, hshift]
    rfl
  · rw [← hcore, List.map_map]
    rfl

end Token
end TermTree
