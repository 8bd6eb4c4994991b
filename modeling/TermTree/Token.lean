/-
The tokens of a text. Blanks separate tokens, a bracketed part is one token whatever it holds, and
a verbatim span hides blanks and brackets. The inside of a group is not looked into further than
is needed to find its end.

A reader hands on the rest of its text, and `pos` is the place of that rest in the text that the
reader was given. What is handed on is what the reader did not take (`eq_append_of_scanGroup`,
`eq_append_of_scanLeaf`), so each reader moves and the whole reading ends. A token and a fault are told
with offsets, which count from the front of the text that the caller gave.
-/
import TermTree.Offset
import TermTree.Outcome
import TermTree.Text.Blank

namespace TermTree

/-- The kinds of tokens. -/
inductive TokenKind where
  /-- The text of one term. -/
  | leaf
  /-- The inside of a group, without its brackets. -/
  | group
  deriving DecidableEq, Repr

/-- A part of a text: its kind, its own text, and the bytes from `start` up to `stop` that it takes. -/
structure Token where
  kind : TokenKind
  text : Text
  start : Nat
  stop : Nat
  deriving DecidableEq, Repr

namespace Token

/-- Whether brackets stood around the token. -/
def isBracketed (t : Token) : Bool := t.kind == .group

/-- Only a space and a tab separate tokens. -/
def isSeparator (c : Char) : Bool := c == ' ' || c == '\t'

/-- Reads the inside of a group up to its closing bracket, and gives it with the text behind that
bracket. The bracket that opened the group stood at `opened`; `depth` further groups are open
inside it. -/
@[semireducible]
def scanGroup (g : Grammar) (h : g.Valid) (opened depth pos : Nat) (t : Text) :
    Except Malformed (Text × Text) :=
  match t with
  | [] => .error (.unterminatedGroup opened)
  | c :: t' =>
    match _ : Text.after? g.bracketClose (c :: t') with
    | some rest =>
      match depth with
      | 0 => .ok ([], rest)
      | depth + 1 =>
        (scanGroup g h opened depth (pos + Text.byteSize g.bracketClose) rest).map
          fun (inside, rest) => (g.bracketClose ++ inside, rest)
    | none =>
      match _ : Text.after? g.bracketOpen (c :: t') with
      | some rest =>
        (scanGroup g h opened (depth + 1) (pos + Text.byteSize g.bracketOpen) rest).map
          fun (inside, rest) => (g.bracketOpen ++ inside, rest)
      | none =>
        match _ : g.quotedAt (c :: t') with
        | .unclosed => .error (.unterminatedQuote pos)
        | .span body rest =>
          (scanGroup g h opened depth (pos + Text.byteSize (g.quote body)) rest).map
            fun (inside, rest) => (g.quote body ++ inside, rest)
        | .absent =>
          (scanGroup g h opened depth (pos + c.utf8Size) t').map
            fun (inside, rest) => (c :: inside, rest)
termination_by t.length
decreasing_by
  · exact Text.length_lt_of_after? h.bracketClose_ne ‹_›
  · exact Text.length_lt_of_after? h.bracketOpen_ne ‹_›
  · exact h.length_lt_of_quotedAt ‹_›
  · simp

/-- Reads the text of one term, up to a separator outside verbatim spans or the end, and gives it
with the text behind it. -/
@[semireducible]
def scanLeaf (g : Grammar) (h : g.Valid) (pos : Nat) (t : Text) : Except Malformed (Text × Text) :=
  match t with
  | [] => .ok ([], [])
  | c :: t' =>
    match _ : g.quotedAt (c :: t') with
    | .unclosed => .error (.unterminatedQuote pos)
    | .span body rest =>
      (scanLeaf g h (pos + Text.byteSize (g.quote body)) rest).map
        fun (text, rest) => (g.quote body ++ text, rest)
    | .absent =>
      if isSeparator c then .ok ([], c :: t')
      else (scanLeaf g h (pos + c.utf8Size) t').map fun (text, rest) => (c :: text, rest)
termination_by t.length
decreasing_by
  · exact h.length_lt_of_quotedAt ‹_›
  · simp

theorem scanGroup_cons (g : Grammar) (h : g.Valid) (opened depth pos : Nat) (c : Char) (t : Text) :
    scanGroup g h opened depth pos (c :: t) =
      match Text.after? g.bracketClose (c :: t) with
      | some rest =>
        match depth with
        | 0 => .ok ([], rest)
        | depth + 1 =>
          (scanGroup g h opened depth (pos + Text.byteSize g.bracketClose) rest).map
            fun (inside, rest) => (g.bracketClose ++ inside, rest)
      | none =>
        match Text.after? g.bracketOpen (c :: t) with
        | some rest =>
          (scanGroup g h opened (depth + 1) (pos + Text.byteSize g.bracketOpen) rest).map
            fun (inside, rest) => (g.bracketOpen ++ inside, rest)
        | none =>
          match g.quotedAt (c :: t) with
          | .unclosed => .error (.unterminatedQuote pos)
          | .span body rest =>
            (scanGroup g h opened depth (pos + Text.byteSize (g.quote body)) rest).map
              fun (inside, rest) => (g.quote body ++ inside, rest)
          | .absent =>
            (scanGroup g h opened depth (pos + c.utf8Size) t).map
              fun (inside, rest) => (c :: inside, rest) := by
  rw [scanGroup]
  split
  · next hc => rw [hc]
  · next hc =>
    rw [hc]
    split
    · next ho => rw [ho]
    · next ho =>
      rw [ho]
      split <;> next hq => rw [hq]

theorem scanLeaf_cons (g : Grammar) (h : g.Valid) (pos : Nat) (c : Char) (t : Text) :
    scanLeaf g h pos (c :: t) =
      match g.quotedAt (c :: t) with
      | .unclosed => .error (.unterminatedQuote pos)
      | .span body rest =>
        (scanLeaf g h (pos + Text.byteSize (g.quote body)) rest).map
          fun (text, rest) => (g.quote body ++ text, rest)
      | .absent =>
        if isSeparator c then .ok ([], c :: t)
        else (scanLeaf g h (pos + c.utf8Size) t).map fun (text, rest) => (c :: text, rest) := by
  rw [scanLeaf]
  split <;> next hq => rw [hq]

/-- The text behind a group's opening bracket is its inside, its closing bracket, and the rest. -/
theorem eq_append_of_scanGroup {g : Grammar} {h : g.Valid} {opened depth pos : Nat} {t inside rest : Text}
    (hs : scanGroup g h opened depth pos t = .ok (inside, rest)) : t = inside ++ g.bracketClose ++ rest := by
  fun_induction scanGroup g h opened depth pos t generalizing inside rest with
  | case1 => simp at hs
  | case2 pos c t' r hc =>
    simp only [Except.ok.injEq, Prod.mk.injEq] at hs
    obtain ⟨rfl, rfl⟩ := hs
    simpa using Text.eq_append_of_after? hc
  | case3 pos c t' r hc depth ih =>
    obtain ⟨⟨i, r'⟩, hi, he⟩ := Outcome.map_eq_ok.1 hs
    simp only [Prod.mk.injEq] at he
    obtain ⟨rfl, rfl⟩ := he
    rw [Text.eq_append_of_after? hc, ih hi]
    simp
  | case4 depth pos c t' hc r ho ih =>
    obtain ⟨⟨i, r'⟩, hi, he⟩ := Outcome.map_eq_ok.1 hs
    simp only [Prod.mk.injEq] at he
    obtain ⟨rfl, rfl⟩ := he
    rw [Text.eq_append_of_after? ho, ih hi]
    simp
  | case5 => simp at hs
  | case6 depth pos c t' hc ho body r hq ih =>
    obtain ⟨⟨i, r'⟩, hi, he⟩ := Outcome.map_eq_ok.1 hs
    simp only [Prod.mk.injEq] at he
    obtain ⟨rfl, rfl⟩ := he
    rw [Grammar.eq_append_of_quotedAt hq, ih hi]
    simp
  | case7 depth pos c t' hc ho hq ih =>
    obtain ⟨⟨i, r'⟩, hi, he⟩ := Outcome.map_eq_ok.1 hs
    simp only [Prod.mk.injEq] at he
    obtain ⟨rfl, rfl⟩ := he
    rw [ih hi]
    simp

theorem eq_append_of_scanLeaf {g : Grammar} {h : g.Valid} {pos : Nat} {t text rest : Text}
    (hs : scanLeaf g h pos t = .ok (text, rest)) : t = text ++ rest := by
  fun_induction scanLeaf g h pos t generalizing text rest with
  | case1 =>
    simp only [Except.ok.injEq, Prod.mk.injEq] at hs
    simp [← hs.1, ← hs.2]
  | case2 => simp at hs
  | case3 pos c t' body r hq ih =>
    obtain ⟨⟨i, r'⟩, hi, he⟩ := Outcome.map_eq_ok.1 hs
    simp only [Prod.mk.injEq] at he
    obtain ⟨rfl, rfl⟩ := he
    rw [Grammar.eq_append_of_quotedAt hq, ih hi]
    simp
  | case4 pos c t' hq hsep =>
    simp only [Except.ok.injEq, Prod.mk.injEq] at hs
    simp [← hs.1, ← hs.2]
  | case5 pos c t' hq hsep ih =>
    obtain ⟨⟨i, r'⟩, hi, he⟩ := Outcome.map_eq_ok.1 hs
    simp only [Prod.mk.injEq] at he
    obtain ⟨rfl, rfl⟩ := he
    rw [ih hi]
    simp

/-- A term's text is empty only where a separator or the end stands. -/
theorem isSeparator_of_scanLeaf_nil {g : Grammar} {h : g.Valid} {pos : Nat} {c : Char} {t rest : Text}
    (hs : scanLeaf g h pos (c :: t) = .ok ([], rest)) : isSeparator c = true := by
  unfold scanLeaf at hs
  split at hs
  · contradiction
  · obtain ⟨⟨i, r'⟩, -, he⟩ := Outcome.map_eq_ok.1 hs
    simp [Grammar.quote, h.quoteOpen_ne] at he
  · split at hs
    · assumption
    · obtain ⟨⟨i, r'⟩, -, he⟩ := Outcome.map_eq_ok.1 hs
      simp at he

/-- Reads the token at the front of `t`, and gives it with the text behind it. -/
def readToken (g : Grammar) (h : g.Valid) (pos : Nat) (t : Text) : Except Malformed (Token × Text) :=
  match Text.after? g.bracketOpen t with
  | some inside =>
    let start := pos + Text.byteSize g.bracketOpen
    (scanGroup g h pos 0 start inside).map fun (text, rest) =>
      (⟨.group, text, start, start + Text.byteSize text⟩, rest)
  | none =>
    (scanLeaf g h pos t).map fun (text, rest) => (⟨.leaf, text, pos, pos + Text.byteSize text⟩, rest)

/-- What the token takes of the text it stands in, its brackets included. -/
def piece (g : Grammar) (token : Token) : Text :=
  match token.kind with
  | .leaf => token.text
  | .group => g.bracketOpen ++ token.text ++ g.bracketClose

/-- A token's piece and the rest are the whole text. -/
theorem eq_append_of_readToken {g : Grammar} {h : g.Valid} {pos : Nat} {t rest : Text} {token : Token}
    (hr : readToken g h pos t = .ok (token, rest)) : t = token.piece g ++ rest := by
  simp only [readToken] at hr
  split at hr
  · next inside hi =>
    obtain ⟨⟨text, r⟩, hs, he⟩ := Outcome.map_eq_ok.1 hr
    simp only [Prod.mk.injEq] at he
    obtain ⟨rfl, rfl⟩ := he
    rw [Text.eq_append_of_after? hi, eq_append_of_scanGroup hs]
    simp [piece]
  · obtain ⟨⟨text, r⟩, hs, he⟩ := Outcome.map_eq_ok.1 hr
    simp only [Prod.mk.injEq] at he
    obtain ⟨rfl, rfl⟩ := he
    simpa [piece] using eq_append_of_scanLeaf hs

theorem length_lt_of_readToken {g : Grammar} {h : g.Valid} {pos : Nat} {c : Char} {t rest : Text} {token : Token}
    (hr : readToken g h pos (c :: t) = .ok (token, rest)) :
    (rest.dropWhile isSeparator).length < (c :: t).length := by
  have hle : (rest.dropWhile isSeparator).length ≤ rest.length := (List.dropWhile_sublist _).length_le
  have heq := congrArg List.length (eq_append_of_readToken hr)
  rw [List.length_append] at heq
  by_cases hp : token.piece g = []
  · simp only [readToken] at hr
    split at hr
    · obtain ⟨⟨text, r⟩, -, he⟩ := Outcome.map_eq_ok.1 hr
      simp only [Prod.mk.injEq] at he
      obtain ⟨rfl, rfl⟩ := he
      simp [piece, h.bracketOpen_ne] at hp
    · obtain ⟨⟨text, r⟩, hs, he⟩ := Outcome.map_eq_ok.1 hr
      simp only [Prod.mk.injEq] at he
      obtain ⟨rfl, rfl⟩ := he
      simp only [piece] at hp
      subst hp
      have hrest : c :: t = r := by simpa using eq_append_of_scanLeaf hs
      subst hrest
      rw [List.dropWhile_cons, if_pos (isSeparator_of_scanLeaf_nil hs)]
      exact Nat.lt_succ_of_le (List.dropWhile_sublist _).length_le
  · have := List.length_pos_iff.2 hp
    omega

/-- The token as it is told of a text that stands at the offset `base`. -/
def told (base : Nat) (token : Token) : Except Error Token := do
  let (start, stop) ← rangeOf base token.start token.stop
  return { token with start, stop }

/-- Reads the tokens from the place `pos` on of a text that stands at the offset `base`; `t` is what stands there, and
does not begin with a separator. Each token is told as soon as it is read. -/
@[semireducible]
def toldTokens (g : Grammar) (h : g.Valid) (base pos : Nat) (t : Text) : Except Error (List Token) :=
  match t with
  | [] => .ok []
  | c :: t' =>
    match _ : readToken g h pos (c :: t') with
    | .error fault => .error (fault.told base)
    | .ok first => do
      let token ← first.1.told base
      let others ← toldTokens g h base
        (pos + Text.byteSize (first.1.piece g ++ first.2.takeWhile isSeparator)) (first.2.dropWhile isSeparator)
      return token :: others
termination_by t.length
decreasing_by exact length_lt_of_readToken ‹_›

theorem toldTokens_cons (g : Grammar) (h : g.Valid) (base pos : Nat) (c : Char) (t : Text) :
    toldTokens g h base pos (c :: t) =
      match readToken g h pos (c :: t) with
      | .error fault => .error (fault.told base)
      | .ok first => do
        let token ← first.1.told base
        let others ← toldTokens g h base
          (pos + Text.byteSize (first.1.piece g ++ first.2.takeWhile isSeparator)) (first.2.dropWhile isSeparator)
        return token :: others := by
  rw [toldTokens]
  split <;> simp_all

/-- The tokens of a text that stands at the offset `base`; the blanks at its ends belong to no token. -/
def tokensFrom (g : Grammar) (h : g.Valid) (base : Nat) (t : Text) : Except Error (List Token) := do
  let start ← offsetOf base (Text.byteSize (Text.leadingBlanks t))
  toldTokens g h start 0 (Text.trim t)

/-- The tokens of a text. -/
def ofText (g : Grammar) (t : Text) : Except Error (List Token) :=
  g.reading fun h => tokensFrom g h 0 t

end Token
end TermTree
