/-
What the scanners take, as relations between a text, the part that is taken and the rest. There is one rule
for each way in which a scanner goes on. A scan succeeds with exactly the results that are so related
(`scanGroup_eq_ok`, `scanLeaf_eq_ok`), so they do not depend on where the text stands.
-/
import TermTree.Proofs.Token.Exact

namespace TermTree.Token

/-- Behind an opening bracket, with `depth` more groups open, `inside` is what stands before the bracket that
closes the first group, and `rest` what stands behind it. -/
inductive ScansGroup (g : Grammar) : Nat → Text → Text → Text → Prop where
  | last {c : Char} {t rest : Text} : Text.after? g.bracketClose (c :: t) = some rest →
      ScansGroup g 0 (c :: t) [] rest
  | closing {depth : Nat} {c : Char} {t r inside rest : Text} : Text.after? g.bracketClose (c :: t) = some r →
      ScansGroup g depth r inside rest → ScansGroup g (depth + 1) (c :: t) (g.bracketClose ++ inside) rest
  | opening {depth : Nat} {c : Char} {t r inside rest : Text} : Text.after? g.bracketClose (c :: t) = none →
      Text.after? g.bracketOpen (c :: t) = some r → ScansGroup g (depth + 1) r inside rest →
      ScansGroup g depth (c :: t) (g.bracketOpen ++ inside) rest
  | span {depth : Nat} {c : Char} {t body r inside rest : Text} : Text.after? g.bracketClose (c :: t) = none →
      Text.after? g.bracketOpen (c :: t) = none → g.quotedAt (c :: t) = .span body r →
      ScansGroup g depth r inside rest → ScansGroup g depth (c :: t) (g.quote body ++ inside) rest
  | char {depth : Nat} {c : Char} {t inside rest : Text} : Text.after? g.bracketClose (c :: t) = none →
      Text.after? g.bracketOpen (c :: t) = none → g.quotedAt (c :: t) = .absent →
      ScansGroup g depth t inside rest → ScansGroup g depth (c :: t) (c :: inside) rest

/-- The front part `text` of a text is the text of one term, and `rest` stands behind it. -/
inductive ScansLeaf (g : Grammar) : Text → Text → Text → Prop where
  | nil : ScansLeaf g [] [] []
  | stop {c : Char} {t : Text} : g.quotedAt (c :: t) = .absent → isSeparator c = true → ScansLeaf g (c :: t) [] (c :: t)
  | span {c : Char} {t body r text rest : Text} : g.quotedAt (c :: t) = .span body r → ScansLeaf g r text rest →
      ScansLeaf g (c :: t) (g.quote body ++ text) rest
  | char {c : Char} {t text rest : Text} : g.quotedAt (c :: t) = .absent → isSeparator c = false →
      ScansLeaf g t text rest → ScansLeaf g (c :: t) (c :: text) rest

variable {g : Grammar} {h : g.Valid}

theorem scanGroup_eq_ok {opened depth pos : Nat} {t inside rest : Text} :
    scanGroup g h opened depth pos t = .ok (inside, rest) ↔ ScansGroup g depth t inside rest := by
  constructor
  · intro hs
    fun_induction scanGroup g h opened depth pos t generalizing inside rest with
    | case1 => contradiction
    | case2 pos c t r hc =>
      cases hs
      exact .last hc
    | case3 pos c t r hc depth ih =>
      obtain ⟨⟨i, r'⟩, hi, he⟩ := Outcome.map_eq_ok.1 hs
      cases he
      exact .closing hc (ih hi)
    | case4 depth pos c t hc r ho ih =>
      obtain ⟨⟨i, r'⟩, hi, he⟩ := Outcome.map_eq_ok.1 hs
      cases he
      exact .opening hc ho (ih hi)
    | case5 => contradiction
    | case6 depth pos c t hc ho body r hq ih =>
      obtain ⟨⟨i, r'⟩, hi, he⟩ := Outcome.map_eq_ok.1 hs
      cases he
      exact .span hc ho hq (ih hi)
    | case7 depth pos c t hc ho hq ih =>
      obtain ⟨⟨i, r'⟩, hi, he⟩ := Outcome.map_eq_ok.1 hs
      cases he
      exact .char hc ho hq (ih hi)
  · intro hs
    induction hs generalizing pos with
    | last hc => simp only [scanGroup_cons, hc]
    | closing hc _ ih => simp only [scanGroup_cons, hc, ih, Outcome.map_ok]
    | opening hc ho _ ih => simp only [scanGroup_cons, hc, ho, ih, Outcome.map_ok]
    | span hc ho hq _ ih => simp only [scanGroup_cons, hc, ho, hq, ih, Outcome.map_ok]
    | char hc ho hq _ ih => simp only [scanGroup_cons, hc, ho, hq, ih, Outcome.map_ok]

theorem scanLeaf_eq_ok {pos : Nat} {t text rest : Text} :
    scanLeaf g h pos t = .ok (text, rest) ↔ ScansLeaf g t text rest := by
  constructor
  · intro hs
    fun_induction scanLeaf g h pos t generalizing text rest with
    | case1 =>
      cases hs
      exact .nil
    | case2 => contradiction
    | case3 pos c t body r hq ih =>
      obtain ⟨⟨i, r'⟩, hi, he⟩ := Outcome.map_eq_ok.1 hs
      cases he
      exact .span hq (ih hi)
    | case4 pos c t hq hsep =>
      cases hs
      exact .stop hq hsep
    | case5 pos c t hq hsep ih =>
      obtain ⟨⟨i, r'⟩, hi, he⟩ := Outcome.map_eq_ok.1 hs
      cases he
      exact .char hq (by simpa using hsep) (ih hi)
  · intro hs
    induction hs generalizing pos with
    | nil => simp only [scanLeaf]
    | stop hq hsep => simp only [scanLeaf_cons, hq, hsep, if_true]
    | span hq _ ih => simp only [scanLeaf_cons, hq, ih, Outcome.map_ok]
    | char hq hsep _ ih => simp [scanLeaf_cons, hq, hsep, ih, Outcome.map_ok]

theorem ScansLeaf.of_span (h : g.Valid) {t body r text rest : Text} (hq : g.quotedAt t = .span body r)
    (hs : ScansLeaf g r text rest) : ScansLeaf g t (g.quote body ++ text) rest := by
  cases t with
  | nil => exact absurd (h.length_lt_of_quotedAt hq) (Nat.not_lt_zero _)
  | cons c t => exact .span hq hs

/-- A token is the inside of a group where an opening bracket stands, and the text of a term elsewhere. -/
theorem readToken_eq_ok {pos : Nat} {t rest : Text} {token : Token} :
    readToken g h pos t = .ok (token, rest) ↔
      (∃ inside text, Text.after? g.bracketOpen t = some inside ∧ ScansGroup g 0 inside text rest ∧
        token = ⟨.group, text, pos + Text.byteSize g.bracketOpen,
          pos + Text.byteSize g.bracketOpen + Text.byteSize text⟩) ∨
      Text.after? g.bracketOpen t = none ∧ ∃ text, ScansLeaf g t text rest ∧
        token = ⟨.leaf, text, pos, pos + Text.byteSize text⟩ := by
  rw [readToken]
  split
  · next inside hi =>
    simp only [Outcome.map_eq_ok, Prod.exists, scanGroup_eq_ok, Prod.mk.injEq, hi]
    constructor
    · rintro ⟨text, _, hs, rfl, rfl⟩
      exact .inl ⟨inside, text, rfl, hs, rfl⟩
    · rintro (⟨_, text, he, hs, rfl⟩ | ⟨hno, -⟩)
      · cases he
        exact ⟨text, rest, hs, rfl, rfl⟩
      · contradiction
  · next hno =>
    simp only [Outcome.map_eq_ok, Prod.exists, scanLeaf_eq_ok, Prod.mk.injEq, hno]
    constructor
    · rintro ⟨text, _, hs, rfl, rfl⟩
      exact .inr ⟨trivial, text, hs, rfl⟩
    · rintro (⟨_, _, he, -⟩ | ⟨-, text, hs, rfl⟩)
      · contradiction
      · exact ⟨text, rest, hs, rfl, rfl⟩

theorem readTokens_of_readToken {pos : Nat} {t : Text} {token : Token} (ht : t ≠ [])
    (hr : readToken g h pos t = .ok (token, [])) : readTokens g h pos t = .ok [token] := by
  cases t with
  | nil => contradiction
  | cons c t =>
    rw [readTokens_cons, hr]
    simp [readTokens, Outcome.map_ok]

theorem ScansGroup.eq_append (h : g.Valid) {depth : Nat} {t inside rest : Text}
    (hs : ScansGroup g depth t inside rest) : t = inside ++ g.bracketClose ++ rest := by
  have hscan : scanGroup g h 0 depth 0 t = .ok (inside, rest) := scanGroup_eq_ok.2 hs
  exact eq_append_of_scanGroup hscan

theorem ScansLeaf.eq_append (h : g.Valid) {t text rest : Text} (hs : ScansLeaf g t text rest) : t = text ++ rest := by
  have hscan : scanLeaf g h 0 t = .ok (text, rest) := scanLeaf_eq_ok.2 hs
  exact eq_append_of_scanLeaf hscan

theorem ScansLeaf.isSeparator_of_mem_head? {t text rest : Text} (hs : ScansLeaf g t text rest) {c : Char}
    (hc : c ∈ rest.head?) : isSeparator c = true := by
  induction hs with
  | nil => contradiction
  | @stop x t _ hsep =>
    obtain rfl : x = c := by simpa using hc
    exact hsep
  | span _ _ ih => exact ih hc
  | char _ _ _ ih => exact ih hc

end TermTree.Token
