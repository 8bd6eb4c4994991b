/-
What is told of a text that is read as a tree. Where every place of the text has an offset, its faults are told of the
places where they stand (`read_eq`). In a longer text they may be told of other places, or there may be no offset to
tell; but a tree that is read is the one that the text stands for (`readAt_of_readFrom`), since no place is told in it.
-/
import TermTree.Proofs.Term.Fault
import TermTree.Proofs.Token.Told

namespace TermTree

theorem Term.Fault.pointsInto {g : Grammar} {pos : Nat} {t : Text} {fault : Malformed} (hf : Term.Fault g pos t fault) :
    fault.PointsInto g pos t := by
  cases hf with
  | quote hrest hq => exact Token.pointsInto_of_quotedAt_unclosed hrest hq
  | delimiter hrest hne hno =>
    have hterm : Text.RestAt pos t pos (t ++ []) := by
      rw [List.append_nil]
      exact .start pos t
    exact ⟨pos, [], _, hterm, hrest, hne, hno⟩

theorem Term.readFrom_eq {g : Grammar} {h : g.Valid} {base : Nat} {t : Text}
    (hsize : base + Text.byteSize t < UInt32.size) :
    readFrom g h base t = (readAt g h 0 t).mapError fun fault => Error.malformed (fault.shift base) := by
  rw [readFrom]
  cases hr : readAt g h 0 t with
  | ok a => rfl
  | error fault =>
    obtain ⟨rest, hrest, hne⟩ := (fault_of_readAt hr).pointsInto.exists_restAt h
    have hlt := hrest.lt hne
    rw [Outcome.mapError_error, Malformed.told_eq (by omega), Outcome.mapError_error]

theorem Term.read_eq {g : Grammar} (hv : g.Valid) {t : Text} (hsize : Text.byteSize t < UInt32.size) :
    read g t = (readAt g hv 0 t).mapError .malformed := by
  rw [read, hv.reading_eq, readFrom_eq (by omega)]
  simp only [Malformed.shift_zero]

namespace Tree
open Token
variable {g : Grammar} {h : g.Valid} {t : Text}

/-- A token stands for the same wherever its text stands, if the text inside a group does. -/
theorem ofToldToken_shift {base : Nat} {token : Token} (hsize : base + token.start + Text.byteSize token.text < UInt32.size)
    (hgroup : token.kind = .group → readFrom (fun a => pure (ofTerm a)) g h (base + token.start) token.text =
      (readAt g h 0 token.text).mapError fun fault => Error.malformed (fault.shift (base + token.start))) :
    ofToldToken (fun a => pure (ofTerm a)) g h (token.shift base) =
      (ofToken g h token).mapError fun fault => Error.malformed (fault.shift base) := by
  cases hk : token.kind with
  | leaf =>
    have hshift := Term.readAt_shift g h token.start 0 token.text
    rw [Nat.add_zero] at hshift
    simp only [ofToldToken, ofToken, Token.shift, hk, Term.readFrom_eq hsize, hshift]
    cases Term.readAt g h 0 token.text with
    | error fault => exact congrArg (Except.error <| Error.malformed ·) (Malformed.shift_shift _ _ _).symm
    | ok a => rfl
  | group =>
    have hshift := readAt_shift g h token.start 0 token.text
    rw [Nat.add_zero] at hshift
    simp only [ofToldToken, ofToken, Token.shift, hk, hshift, hgroup hk]
    cases readAt g h 0 token.text with
    | error fault => exact congrArg (Except.error <| Error.malformed ·) (Malformed.shift_shift _ _ _).symm
    | ok n => rfl

/-- **Where every place of the text has an offset, that is what is told of it.** -/
theorem readFrom_eq_readAt {base : Nat} {t : Text} (hsize : base + Text.byteSize t < UInt32.size) :
    readFrom (fun a => pure (ofTerm a)) g h base t =
      (readAt g h 0 t).mapError fun fault => Error.malformed (fault.shift base) := by
  rw [readFrom_eq, readAt_eq, tokensFrom_eq hsize]
  cases ht : tokensAt g h 0 t with
  | error e => rfl
  | ok tokens =>
    obtain ⟨_, hrun⟩ := exists_runs_of_ok ht
    have hmap : (tokens.map (Token.shift base)).mapM (ofToldToken (fun a => pure (ofTerm a)) g h) =
        (tokens.mapM (ofToken g h)).mapError fun fault => Error.malformed (fault.shift base) := by
      refine Outcome.mapM_map_eq_mapError fun token hm => ?_
      have hstands := (hrun.standsIn token hm).within (Text.restAt_trim 0 t)
      have hinside : base + token.start + Text.byteSize token.text < UInt32.size := by
        obtain ⟨-, -, hstop⟩ := hstands.bounds
        have := hstands.stop
        omega
      refine ofToldToken_shift hinside fun hk => ?_
      have hlt := length_lt_of_mem_tokensAt ht hm hk
      exact readFrom_eq_readAt hinside
    simp only [Outcome.map_ok, Outcome.mapError_ok, hmap]
    show Except.map (group g) _ = (Except.map (group g) _).mapError _
    rw [Outcome.map_mapError]
termination_by t.length

theorem read_eq (hv : g.Valid) (hsize : Text.byteSize t < UInt32.size) :
    read g t = (readAt g hv 0 t).mapError .malformed := by
  rw [read, hv.reading_eq, readFrom_eq_readAt (by omega)]
  simp only [Malformed.shift_zero]

/-- A text that is not cut into tokens is not read. -/
theorem read_eq_error_of_ofText {e : Error} (ht : ofText g t = .error e) : read g t = .error e := by
  cases hf : g.fault? with
  | some fault =>
    rw [ofText, Grammar.reading_eq_throw hf] at ht
    rw [read, Grammar.reading_eq_throw hf]
    cases ht
    rfl
  | none =>
    have hv := Grammar.fault?_eq_none_iff.1 hf
    rw [ofText, hv.reading_eq] at ht
    rw [read, hv.reading_eq, readFrom_eq, ht]
    rfl

/-! ## Texts of any size -/

/-- What a list of members gives depends only on what they are made of. -/
theorem mapM_eq_ok_of_map_eq {α β γ ε ε' : Type} {core : α → γ} {f : α → Except ε β} {f' : α → Except ε' β}
    {as as' : List α} {bs : List β} (hcore : as'.map core = as.map core)
    (hf : ∀ a ∈ as, ∀ a' b, core a' = core a → f a = .ok b → f' a' = .ok b) (hbs : as.mapM f = .ok bs) :
    as'.mapM f' = .ok bs := by
  induction as generalizing as' bs with
  | nil =>
    cases hbs
    rw [List.map_eq_nil_iff.1 hcore]
    rfl
  | cons a as ih =>
    obtain ⟨a', as', rfl, ha, has⟩ := List.map_eq_cons_iff.1 hcore
    rw [Outcome.mapM_cons] at hbs
    split at hbs
    · contradiction
    · next b hb =>
      obtain ⟨bs', hbs', rfl⟩ := Outcome.map_eq_ok.1 hbs
      rw [Outcome.mapM_cons, hf a (by simp) a' b ha hb, ih has (fun c hc => hf c (by simp [hc])) hbs']
      rfl

theorem ofToken_of_ofToldToken {token token' : Token} {n : Tree Term} (hcore : token'.core = token.core)
    (hgroup : token.kind = .group → ∀ d, readFrom (m := Except Error) (fun a => pure (ofTerm a)) g h token.start token.text =
      .ok d → readAt g h 0 token.text = .ok d)
    (hr : ofToldToken (m := Except Error) (fun a => pure (ofTerm a)) g h token = .ok n) : ofToken g h token' = .ok n := by
  obtain ⟨hkind, htext⟩ := Prod.ext_iff.1 hcore
  simp only [core] at hkind htext
  rw [ofToken, hkind, htext]
  rw [ofToldToken] at hr
  cases hk : token.kind with
  | leaf =>
    rw [hk] at hr
    obtain ⟨a, ha, hmade⟩ := Outcome.bind_eq_ok.1 hr
    cases hmade
    have hshift := Term.readAt_shift g h token'.start 0 token.text
    rw [Nat.add_zero] at hshift
    cases hread : Term.readFrom g h token.start token.text with
    | error e =>
      rw [hread] at ha
      contradiction
    | ok b =>
      rw [hread] at ha
      cases ha
      simp only [hshift, Term.readFrom_eq_ok.1 hread, Outcome.mapError_ok, Outcome.map_ok]
  | group =>
    rw [hk] at hr
    have hshift := readAt_shift g h token'.start 0 token.text
    rw [Nat.add_zero] at hshift
    simp only [hshift, hgroup hk n hr, Outcome.mapError_ok]

/-- A tree that is read is the one that the text stands for, whatever the size of the text. -/
theorem readAt_of_readFrom {base : Nat} {t : Text} {n : Tree Term}
    (hr : readFrom (m := Except Error) (fun a => pure (ofTerm a)) g h base t = .ok n) : readAt g h 0 t = .ok n := by
  rw [readFrom_eq] at hr
  split at hr
  · contradiction
  · next tokens ht =>
    obtain ⟨cs, hcs, rfl⟩ := Outcome.map_eq_ok.1 hr
    obtain ⟨tokens', htokens, hcore⟩ := map_core_of_tokensFrom ht
    have hsame : tokens'.mapM (ofToken g h) = .ok cs := by
      refine mapM_eq_ok_of_map_eq hcore (fun token hm token' c heq hc => ?_) hcs
      refine ofToken_of_ofToldToken heq (fun hk n hread => ?_) hc
      have hlt := length_lt_of_mem_tokensFrom ht hm hk
      exact readAt_of_readFrom hread
    rw [readAt_eq, htokens]
    show Except.map (group g) (tokens'.mapM (ofToken g h)) = _
    rw [hsame, Outcome.map_ok]
termination_by t.length

theorem exists_readAt_of_read {n : Tree Term} (hr : read g t = .ok n) : ∃ h, readAt g h 0 t = .ok n := by
  obtain ⟨h, hr⟩ := Grammar.reading_eq_ok.1 hr
  exact ⟨h, readAt_of_readFrom hr⟩

end Tree
end TermTree
