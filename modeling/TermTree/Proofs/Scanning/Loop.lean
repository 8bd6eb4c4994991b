/-
The loops of the readers, turn by turn. A reader hands on what it has not read, and where that stands. Here the same
readers are taken apart: a cursor holds the place that a loop has come to, and a turn of the loop leaves it or moves
the cursor on. A turn that goes on moves past at least one character, and never closes more brackets than are open
(`advances_of_turn`). So every loop comes to its end, and what it ends with is what the reader gives
(`ends_outcome`).
-/
import TermTree.Proofs.Text.Offset
import TermTree.Proofs.Tree.Exact

namespace TermTree.Scanning
open TermTree.Token TermTree.Term

/-- A place in a text that is read: the text stands at `base`, and `rest` is still to be read, from the offset `pos`
on. -/
structure Cursor where
  base : Nat
  text : Text
  pos : Nat
  rest : Text

/-- The loops of the readers. -/
inductive Loop where
  /-- Reads one token after another, each with the separators behind it. -/
  | tokens
  /-- Looks for the end of the group opened at `opened`; `depth` brackets are open. -/
  | group (opened : Nat) (depth : Int)
  /-- Reads the text of a term up to a separator. -/
  | leaf
  /-- Looks for the end of the verbatim span opened at `opened`. -/
  | span (opened : Nat)
  /-- Passes over the characters of a class. -/
  | run (p : Char → Bool)
  /-- Reads one delimiter after another, each with its value. -/
  | parameters
  /-- Reads a value up to a delimiter. -/
  | value

/-- What a turn of a loop comes to: the loop goes on from another place, or is left with the text behind what it has
read, or with a fault. -/
inductive Turn where
  | goOn (l : Loop) (c : Cursor)
  | leave (r : Except Malformed Text)

namespace Cursor

/-- A cursor in front of a text. -/
def atStart (base : Nat) (text : Text) : Cursor := ⟨base, text, base, text⟩

/-- The cursor as many bytes further on as `taken` has, where `rest` is left. -/
def advance (c : Cursor) (taken rest : Text) : Cursor := { c with pos := c.pos + Text.byteSize taken, rest }

/-- The second cursor is in the same text, behind `taken`. -/
structure Moves (c : Cursor) (taken : Text) (c' : Cursor) : Prop where
  base_eq : c'.base = c.base
  text_eq : c'.text = c.text
  rest_eq : c.rest = taken ++ c'.rest
  pos_eq : c'.pos = c.pos + Text.byteSize taken

theorem moves_advance {c : Cursor} {taken rest : Text} (h : c.rest = taken ++ rest) :
    c.Moves taken (c.advance taken rest) := ⟨rfl, rfl, h, rfl⟩

theorem moves_of_after? {c : Cursor} {marker rest : Text} (h : Text.after? marker c.rest = some rest) :
    c.Moves marker (c.advance marker rest) := moves_advance (Text.eq_append_of_after? h)

/-- The second cursor is further on than the first. -/
def Advances (c c' : Cursor) : Prop := ∃ taken, taken ≠ [] ∧ c.Moves taken c'

theorem Advances.pos_lt {c c' : Cursor} (h : c.Advances c') : c.pos < c'.pos := by
  obtain ⟨taken, hne, hmoves⟩ := h
  have hpos := Text.byteSize_pos hne
  rw [hmoves.pos_eq]
  omega

theorem Advances.length_lt {c c' : Cursor} (h : c.Advances c') : c'.rest.length < c.rest.length := by
  obtain ⟨taken, hne, hmoves⟩ := h
  have hpos := List.length_pos_iff.2 hne
  rw [hmoves.rest_eq, List.length_append]
  omega

end Cursor

/-! ## The turns -/

/-- With what a loop is left at the end of the text. -/
def Loop.atEnd : Loop → Except Malformed Text
  | .group opened _ => .error (.unterminatedGroup opened)
  | .span opened => .error (.unterminatedQuote opened)
  | _ => .ok []

section
variable (g : Grammar) (h : g.Valid)

/-- A turn in front of the character `x` and the text `t`, one for each loop. -/
def tokensTurn (c : Cursor) (x : Char) (t : Text) : Turn :=
  match readToken g h c.pos (x :: t) with
  | .error e => .leave (.error e)
  | .ok first =>
    .goOn .tokens (c.advance (first.1.piece g ++ first.2.takeWhile isSeparator) (first.2.dropWhile isSeparator))

def groupTurn (opened : Nat) (depth : Int) (c : Cursor) (x : Char) (t : Text) : Turn :=
  match Text.after? g.bracketClose (x :: t) with
  | some rest =>
    if depth - 1 = 0 then .leave (.ok rest) else .goOn (.group opened (depth - 1)) (c.advance g.bracketClose rest)
  | none =>
    match Text.after? g.bracketOpen (x :: t) with
    | some rest => .goOn (.group opened (depth + 1)) (c.advance g.bracketOpen rest)
    | none =>
      match g.quotedAt (x :: t) with
      | .unclosed => .leave (.error (.unterminatedQuote c.pos))
      | .span body rest => .goOn (.group opened depth) (c.advance (g.quote body) rest)
      | .absent => .goOn (.group opened depth) (c.advance [x] t)

def leafTurn (c : Cursor) (x : Char) (t : Text) : Turn :=
  match g.quotedAt (x :: t) with
  | .unclosed => .leave (.error (.unterminatedQuote c.pos))
  | .span body rest => .goOn .leaf (c.advance (g.quote body) rest)
  | .absent => if isSeparator x then .leave (.ok (x :: t)) else .goOn .leaf (c.advance [x] t)

def spanTurn (opened : Nat) (c : Cursor) (x : Char) (t : Text) : Turn :=
  match Text.after? g.quoteClose (x :: t) with
  | some rest => .leave (.ok rest)
  | none => .goOn (.span opened) (c.advance [x] t)

def runTurn (p : Char → Bool) (c : Cursor) (x : Char) (t : Text) : Turn :=
  if p x then .goOn (.run p) (c.advance [x] t) else .leave (.ok (x :: t))

def parametersTurn (c : Cursor) (x : Char) (t : Text) : Turn :=
  match g.leadingDelimiter? (x :: t) with
  | none => .leave (.error (.missingDelimiter c.pos c.text))
  | some d =>
    match readValue g (c.pos + Text.byteSize d) ((x :: t).drop d.length) with
    | .error e => .leave (.error e)
    | .ok value => .goOn .parameters (c.advance (d ++ value.written) value.rest)

def valueTurn (c : Cursor) (x : Char) (t : Text) : Turn :=
  if (g.leadingDelimiter? (x :: t)).isSome then .leave (.ok (x :: t)) else .goOn .value (c.advance [x] t)

/-- One turn of a loop. -/
def turn (l : Loop) (c : Cursor) : Turn :=
  match c.rest with
  | [] => .leave l.atEnd
  | x :: t =>
    match l with
    | .tokens => tokensTurn g h c x t
    | .group opened depth => groupTurn g opened depth c x t
    | .leaf => leafTurn g c x t
    | .span opened => spanTurn g opened c x t
    | .run p => runTurn p c x t
    | .parameters => parametersTurn g c x t
    | .value => valueTurn g c x t

/-- What the reader that has this loop gives from the cursor on: the text that is left, or the fault. -/
def outcome (l : Loop) (c : Cursor) : Except Malformed Text :=
  match l with
  | .tokens => (readTokens g h c.pos c.rest).map fun _ => []
  | .group opened depth => (scanGroup g h opened (depth - 1).toNat c.pos c.rest).map (·.2)
  | .leaf => (scanLeaf g h c.pos c.rest).map (·.2)
  | .span opened =>
    match Text.breakOn? g.quoteClose c.rest with
    | none => .error (.unterminatedQuote opened)
    | some (_, rest) => .ok rest
  | .run p => .ok (c.rest.dropWhile p)
  | .parameters => (readParameters g h c.text c.pos c.rest).map fun _ => []
  | .value => .ok (bareValue g c.rest).2

end

/-- In the loop that looks for the end of a group, a bracket is open. -/
def Loop.Open : Loop → Prop
  | .group _ depth => 0 < depth
  | _ => True

/-- What is right about a turn: if the loop goes on, then further on in the text, with a bracket open if it was looking
for one; and what the reader gives is what it gives from there, or what the loop is left with. -/
inductive Turn.Right (g : Grammar) (h : g.Valid) (l : Loop) (c : Cursor) : Turn → Prop where
  | leave {r : Except Malformed Text} : outcome g h l c = r → Turn.Right g h l c (.leave r)
  | goOn {l' : Loop} {c' : Cursor} : c.Advances c' → l'.Open → outcome g h l c = outcome g h l' c' →
      Turn.Right g h l c (.goOn l' c')

/-! ## Each loop -/

section
variable {g : Grammar} {h : g.Valid} {c : Cursor} {x : Char} {t rest : Text}

theorem advances_of_after? {marker : Text} (hne : marker ≠ []) (hrest : c.rest = t)
    (hmarker : Text.after? marker t = some rest) : c.Advances (c.advance marker rest) :=
  ⟨marker, hne, Cursor.moves_advance (hrest.trans (Text.eq_append_of_after? hmarker))⟩

theorem advances_of_quotedAt (h : g.Valid) {body : Text} (hrest : c.rest = t) (hspan : g.quotedAt t = .span body rest) :
    c.Advances (c.advance (g.quote body) rest) := by
  refine ⟨g.quote body, ?_, Cursor.moves_advance (hrest.trans (Grammar.eq_append_of_quotedAt hspan))⟩
  simp [Grammar.quote, h.quoteOpen_ne]

theorem advances_char (hrest : c.rest = x :: t) : c.Advances (c.advance [x] t) :=
  ⟨[x], List.cons_ne_nil x [], Cursor.moves_advance hrest⟩

theorem outcome_atEnd (hrest : c.rest = []) (l : Loop) : outcome g h l c = l.atEnd := by
  cases l with
  | tokens => simp only [outcome, hrest, readTokens, Outcome.map_ok, Loop.atEnd]
  | group opened depth => simp only [outcome, hrest, scanGroup, Outcome.map_error, Loop.atEnd]
  | leaf => simp only [outcome, hrest, scanLeaf, Outcome.map_ok, Loop.atEnd]
  | span opened =>
    obtain ⟨q, close, hclose⟩ := List.exists_cons_of_ne_nil h.quoteClose_ne
    simp only [outcome, hrest, hclose, Text.breakOn?, Text.after?, Option.map_none, Loop.atEnd]
  | run p => simp only [outcome, hrest, List.dropWhile_nil, Loop.atEnd]
  | parameters => simp only [outcome, hrest, readParameters, Outcome.map_ok, Loop.atEnd]
  | value => simp only [outcome, hrest, bareValue, Loop.atEnd]

theorem right_tokensTurn (hrest : c.rest = x :: t) : Turn.Right g h .tokens c (tokensTurn g h c x t) := by
  rw [tokensTurn]
  split
  · next e he => exact .leave (by rw [outcome, hrest, readTokens_cons, he, Outcome.map_error])
  · next first hfirst =>
    have hwhole : c.rest = first.1.piece g ++ first.2.takeWhile isSeparator ++ first.2.dropWhile isSeparator := by
      rw [List.append_assoc, List.takeWhile_append_dropWhile, hrest]
      exact eq_append_of_readToken hfirst
    refine .goOn ⟨_, fun hnil => ?_, Cursor.moves_advance hwhole⟩ trivial ?_
    · -- a turn that took nothing would leave a text that is no shorter
      have hlt := length_lt_of_readToken hfirst
      rw [hnil, hrest] at hwhole
      rw [hwhole] at hlt
      exact absurd hlt (Nat.lt_irrefl _)
    · simp only [outcome, hrest, readTokens_cons, hfirst, Outcome.map_map, Cursor.advance]

theorem outcome_group {opened n : Nat} {depth : Int} (hdepth : depth = n + 1) :
    outcome g h (.group opened depth) c = (scanGroup g h opened n c.pos c.rest).map (·.2) := by
  have hn : (depth - 1).toNat = n := by omega
  rw [outcome, hn]

theorem right_groupTurn (hrest : c.rest = x :: t) {opened : Nat} {depth : Int} (hdepth : 0 < depth) :
    Turn.Right g h (.group opened depth) c (groupTurn g opened depth c x t) := by
  obtain ⟨n, hn⟩ : ∃ n : Nat, depth = n + 1 := ⟨(depth - 1).toNat, by omega⟩
  have hout : outcome g h (.group opened depth) c = (scanGroup g h opened n c.pos (x :: t)).map (·.2) := by
    rw [outcome_group hn, hrest]
  rw [groupTurn]
  split
  · next rest hclose =>
    simp only [scanGroup_cons, hclose] at hout
    cases n with
    | zero =>
      rw [if_pos (by omega)]
      exact .leave hout
    | succ n =>
      have hless : depth - 1 = n + 1 := by omega
      rw [if_neg (by omega)]
      refine .goOn (advances_of_after? h.bracketClose_ne hrest hclose) (by show 0 < _; omega) ?_
      rw [hout, outcome_group hless, Outcome.map_map]
      rfl
  · next hclose =>
    split
    · next rest hopen =>
      have hmore : depth + 1 = (n + 1 : Nat) + 1 := by omega
      refine .goOn (advances_of_after? h.bracketOpen_ne hrest hopen) (by show 0 < _; omega) ?_
      simp only [hout, scanGroup_cons, hclose, hopen, outcome_group hmore, Outcome.map_map]
      rfl
    · next hopen =>
      split
      · next hquote => exact .leave (by simp only [hout, scanGroup_cons, hclose, hopen, hquote, Outcome.map_error])
      · next body rest hquote =>
        refine .goOn (advances_of_quotedAt h hrest hquote) hdepth ?_
        simp only [hout, scanGroup_cons, hclose, hopen, hquote, outcome_group hn, Outcome.map_map]
        rfl
      · next hquote =>
        refine .goOn (advances_char hrest) hdepth ?_
        simp only [hout, scanGroup_cons, hclose, hopen, hquote, outcome_group hn, Outcome.map_map]
        rfl

theorem right_leafTurn (hrest : c.rest = x :: t) : Turn.Right g h .leaf c (leafTurn g c x t) := by
  have hout : outcome g h .leaf c = (scanLeaf g h c.pos (x :: t)).map (·.2) := by rw [outcome, hrest]
  rw [leafTurn]
  split
  · next hquote => exact .leave (by simp only [hout, scanLeaf_cons, hquote, Outcome.map_error])
  · next body rest hquote =>
    refine .goOn (advances_of_quotedAt h hrest hquote) trivial ?_
    rw [hout]
    simp only [scanLeaf_cons, hquote, Outcome.map_map]
    rfl
  · next hquote =>
    split
    · next hsep => exact .leave (by simp only [hout, scanLeaf_cons, hquote, hsep, if_true, Outcome.map_ok])
    · next hsep =>
      refine .goOn (advances_char hrest) trivial ?_
      rw [hout]
      simp only [scanLeaf_cons, hquote, if_neg hsep, Outcome.map_map]
      rfl

theorem right_spanTurn (hrest : c.rest = x :: t) (opened : Nat) :
    Turn.Right g h (.span opened) c (spanTurn g opened c x t) := by
  rw [spanTurn]
  split
  · next rest hclose => exact .leave (by simp only [outcome, hrest, Text.breakOn?, hclose])
  · next hclose =>
    refine .goOn (advances_char hrest) trivial ?_
    simp only [outcome, hrest, Text.breakOn?, hclose, Cursor.advance]
    cases Text.breakOn? g.quoteClose t <;> rfl

theorem right_runTurn (hrest : c.rest = x :: t) (p : Char → Bool) :
    Turn.Right g h (.run p) c (runTurn p c x t) := by
  rw [runTurn]
  split
  · next hx =>
    refine .goOn (advances_char hrest) trivial ?_
    rw [outcome, hrest, List.dropWhile_cons_of_pos hx]
    rfl
  · next hx => exact .leave (by rw [outcome, hrest, List.dropWhile_cons_of_neg hx])

theorem right_parametersTurn (hrest : c.rest = x :: t) : Turn.Right g h .parameters c (parametersTurn g c x t) := by
  have hout : outcome g h .parameters c = (readParameters g h c.text c.pos (x :: t)).map fun _ => [] := by
    rw [outcome, hrest]
  rw [parametersTurn]
  split
  · next hd => exact .leave (by simp only [hout, readParameters_cons, hd, Outcome.map_error])
  · next d hd =>
    split
    · next e he => exact .leave (by simp only [hout, readParameters_cons, hd, he, Outcome.map_error])
    · next value hvalue =>
      have hwhole : c.rest = d ++ value.written ++ value.rest := by
        rw [hrest, List.append_assoc, ← eq_append_of_readContent (bareValue_append g) hvalue]
        exact Grammar.eq_append_of_leadingDelimiter? hd
      have hne : d ++ value.written ≠ [] := by
        simp [h.delimiter_ne d (Grammar.mem_of_leadingDelimiter? hd)]
      refine .goOn ⟨_, hne, Cursor.moves_advance hwhole⟩ trivial ?_
      rw [hout]
      simp only [readParameters_cons, hd, hvalue, Outcome.map_map]
      rfl

theorem right_valueTurn (hrest : c.rest = x :: t) : Turn.Right g h .value c (valueTurn g c x t) := by
  rw [valueTurn]
  split
  · next hd => exact .leave (by simp only [outcome, hrest, bareValue, hd, if_true])
  · next hd =>
    refine .goOn (advances_char hrest) trivial ?_
    simp only [outcome, hrest, bareValue, hd]
    rfl

end

/-! ## All loops -/

variable {g : Grammar} {h : g.Valid}

theorem right_turn {l : Loop} {c : Cursor} (hopen : l.Open) : Turn.Right g h l c (turn g h l c) := by
  rw [turn]
  split
  · next hrest => exact .leave (outcome_atEnd hrest l)
  · next x t hrest =>
    cases l with
    | tokens => exact right_tokensTurn hrest
    | group opened depth => exact right_groupTurn hrest hopen
    | leaf => exact right_leafTurn hrest
    | span opened => exact right_spanTurn hrest opened
    | run p => exact right_runTurn hrest p
    | parameters => exact right_parametersTurn hrest
    | value => exact right_valueTurn hrest

/-- A turn that goes on comes further, keeps a bracket open, and keeps what the reader gives. -/
theorem advances_of_turn {l l' : Loop} {c c' : Cursor} (hopen : l.Open) (hturn : turn g h l c = .goOn l' c') :
    c.Advances c' ∧ l'.Open ∧ outcome g h l c = outcome g h l' c' := by
  have hright : Turn.Right g h l c (turn g h l c) := right_turn hopen
  rw [hturn] at hright
  cases hright with
  | goOn hadvances hopen' hout => exact ⟨hadvances, hopen', hout⟩

/-- A turn that leaves the loop leaves it with what the reader gives. -/
theorem outcome_of_turn {l : Loop} {c : Cursor} {r : Except Malformed Text} (hopen : l.Open)
    (hturn : turn g h l c = .leave r) : outcome g h l c = r := by
  have hright : Turn.Right g h l c (turn g h l c) := right_turn hopen
  rw [hturn] at hright
  cases hright with
  | leave hout => exact hout

/-- A loop comes to its end, with the result `r`. -/
inductive Ends (g : Grammar) (h : g.Valid) : Loop → Cursor → Except Malformed Text → Prop where
  | leave {l : Loop} {c : Cursor} {r : Except Malformed Text} : turn g h l c = .leave r → Ends g h l c r
  | goOn {l l' : Loop} {c c' : Cursor} {r : Except Malformed Text} : turn g h l c = .goOn l' c' → Ends g h l' c' r →
      Ends g h l c r

/-- **Every loop comes to its end, and with what the reader gives.** -/
theorem ends_outcome {l : Loop} {c : Cursor} (hopen : l.Open) : Ends g h l c (outcome g h l c) := by
  cases hturn : turn g h l c with
  | leave r =>
    rw [outcome_of_turn hopen hturn]
    exact .leave hturn
  | goOn l' c' =>
    obtain ⟨hadvances, hopen', hout⟩ := advances_of_turn hopen hturn
    have hlt := hadvances.length_lt
    rw [hout]
    exact .goOn hturn (ends_outcome hopen')
termination_by c.rest.length

end TermTree.Scanning
