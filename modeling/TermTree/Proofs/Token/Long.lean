/-
Texts with more places than there are offsets. A text that is cut into tokens stays cut into these, however long it is;
but of where a token stands the low 32 bits are told, and where these say that it ends before it begins, the text is
refused (`rangeOf_reversed`). So a word may be refused for what stands in front of it: the longest word that has
offsets is read on its own and not behind another one (`ofText_behind_longWord`).
-/
import TermTree.Proofs.Grammar.Simple
import TermTree.Proofs.Token.Exposed
import TermTree.Proofs.Token.Seam
import TermTree.Proofs.Token.Told

namespace TermTree

theorem rangeOf_of_le {base start stop : Nat} (hstop : base + stop % UInt32.size < UInt32.size)
    (hle : start % UInt32.size ≤ stop % UInt32.size) :
    rangeOf base start stop = .ok (base + start % UInt32.size, base + stop % UInt32.size) := by
  rw [rangeOf, offsetOf, if_pos (by omega), offsetOf, if_pos hstop]
  show (if base + start % UInt32.size ≤ base + stop % UInt32.size then _ else _) = _
  rw [if_pos (by omega)]
  rfl

/-- What ends in front of its beginning is not told. -/
theorem rangeOf_reversed {base start stop : Nat} (hstart : base + start % UInt32.size < UInt32.size)
    (hstop : stop % UInt32.size < start % UInt32.size) : rangeOf base start stop = .error (.noOffset .reversed) := by
  rw [rangeOf, offsetOf, if_pos hstart, offsetOf, if_pos (by omega)]
  show (if base + start % UInt32.size ≤ base + stop % UInt32.size then _ else _) = _
  rw [if_neg (by omega)]
  rfl

namespace Token
variable {g : Grammar} {h : g.Valid} {base pos : Nat} {t : Text} {tokens : List Token}

theorem toldTokens_of_ok (hr : readTokens g h pos t = .ok tokens) :
    toldTokens g h base pos t = tokens.mapM (told base) := by
  fun_induction readTokens g h pos t generalizing tokens with
  | case1 =>
    cases hr
    rw [toldTokens]
    rfl
  | case2 => contradiction
  | case3 pos c t first hf ih =>
    obtain ⟨others, hothers, rfl⟩ := Outcome.map_eq_ok.1 hr
    rw [toldTokens_cons, hf, List.mapM_cons]
    simp only [ih hothers]

theorem ofText_of_trimmed (ht : Text.Trimmed t) (hr : tokensAt g h 0 t = .ok tokens) :
    ofText g t = tokens.mapM (told 0) := by
  obtain ⟨hlead, htrim⟩ := ht.trim_self
  rw [tokensAt, hlead, htrim] at hr
  rw [ofText, h.reading_eq, tokensFrom, hlead, htrim]
  exact toldTokens_of_ok hr

end Token

/-! ## A long word -/

/-- The letter a, as often as there is a place behind it that has an offset. -/
@[irreducible]
def Text.longWord : Text := List.replicate (UInt32.size - 1) 'a'

namespace Text

theorem eq_of_mem_longWord {c : Char} (hc : c ∈ longWord) : c = 'a' := by
  rw [longWord] at hc
  exact List.eq_of_mem_replicate hc

theorem longWord_ne_nil : longWord ≠ [] := by
  rw [longWord, ne_eq, List.replicate_eq_nil_iff]
  decide

theorem byteSize_replicate (n : Nat) (c : Char) : byteSize (List.replicate n c) = n * c.utf8Size := by
  induction n with
  | zero => rw [List.replicate_zero, byteSize_nil, Nat.zero_mul]
  | succ n ih => rw [List.replicate_succ, byteSize_cons, ih, Nat.succ_mul, Nat.add_comm]

theorem byteSize_longWord : byteSize longWord + 1 = UInt32.size := by
  rw [longWord, byteSize_replicate]
  rfl

theorem trimmed_longWord : Trimmed longWord := by
  constructor
  · intro c hc
    rw [eq_of_mem_longWord (List.mem_of_mem_head? hc)]
    rfl
  · intro c hc
    rw [eq_of_mem_longWord (List.mem_of_mem_getLast? hc)]
    rfl

end Text

namespace Token
open TermTree.Text

theorem exposes_longWord : Grammar.Exposes {} longWord longWord :=
  .of_not_mem rfl fun hm => absurd (eq_of_mem_longWord hm) (by decide)

theorem readTokens_longWord (h : Grammar.Valid {}) (pos : Nat) :
    readTokens {} h pos longWord = .ok [⟨.leaf, longWord, pos, pos + byteSize longWord⟩] := by
  have hundivided : Grammar.Undivided {} longWord :=
    ⟨longWord, exposes_longWord, fun x hx => by rw [eq_of_mem_longWord hx]; rfl⟩
  have hopen : after? (Grammar.bracketOpen {}) longWord = none := by
    rw [after?_eq_none]
    exact fun hfront => absurd (eq_of_mem_longWord (hfront.subset (List.mem_singleton_self '\x7b'))) (by decide)
  refine readTokens_of_readToken longWord_ne_nil (readToken_eq_ok.2 (.inr ⟨hopen, longWord, ?_, rfl⟩))
  exact scansLeaf_of_undivided h hundivided

/-- Behind a letter and a space the word has offsets for its first places only. -/
theorem ofText_behind_longWord : ofText {} (['b', ' '] ++ longWord) = .error (.noOffset .reversed) := by
  have hv := Grammar.valid_default
  have htrimmed : Trimmed (['b', ' '] ++ longWord) := by
    refine ⟨fun c hc => ?_, fun c hc => ?_⟩
    · cases hc
      rfl
    · rw [List.getLast?_append_of_ne_nil _ longWord_ne_nil] at hc
      exact trimmed_longWord.2 c hc
  obtain ⟨hlead, htrim⟩ := trimmed_longWord.trim_self
  have hword : tokensAt {} hv 2 longWord = .ok [⟨.leaf, longWord, 2, 2 + byteSize longWord⟩] := by
    rw [tokensAt, hlead, htrim]
    exact readTokens_longWord hv 2
  have hletter : tokensAt {} hv 0 ['b'] = .ok [⟨.leaf, ['b'], 0, 1⟩] := rfl
  have hseam := tokensAt_append (fun m => Grammar.simple_default.marker_unblank m) (w := [' ']) (t := longWord) (by simp)
    (by simp [isSeparator]) (fun _ hc => absurd hc List.not_mem_nil) (by simp [hlead]) hletter
  have hsize : 0 + byteSize (['b'] ++ [' ']) = 2 := rfl
  rw [hsize, hword] at hseam
  have hfirst : (⟨.leaf, ['b'], 0, 1⟩ : Token).told 0 = .ok ⟨.leaf, ['b'], 0, 1⟩ := rfl
  have hsecond : (⟨.leaf, longWord, 2, 2 + byteSize longWord⟩ : Token).told 0 = .error (.noOffset .reversed) := by
    have hstop : 2 + byteSize longWord = UInt32.size + 1 := by rw [← byteSize_longWord]; omega
    rw [told, hstop, rangeOf_reversed (by decide) (by decide)]
    rfl
  rw [ofText_of_trimmed htrimmed hseam]
  show List.mapM (told 0) [_, _] = _
  rw [Outcome.mapM_cons, hfirst, Outcome.mapM_cons, hsecond]
  rfl

end Token
end TermTree
