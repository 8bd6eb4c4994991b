/-
Reading a term from its text.

A term is a name and then delimiters, each followed by a value. The name is a verbatim span or the
longest run of letters, digits and hyphens of ASCII, which may be empty. A value is a verbatim span
or runs up to the next place where some delimiter stands. After a name or a verbatim value a
delimiter or the end must follow.
-/
import TermTree.Offset
import TermTree.Outcome
import TermTree.Term

namespace TermTree.Term

/-- Whether `c` may stand in a name that is not quoted. -/
def isPlainChar (c : Char) : Bool := c.isAlphanum || c == '-'

/-- Splits a text before the first place where a delimiter stands. -/
def bareValue (g : Grammar) : Text → Text × Text
  | [] => ([], [])
  | c :: t =>
    if (g.leadingDelimiter? (c :: t)).isSome then ([], c :: t)
    else
      let (value, rest) := bareValue g t
      (c :: value, rest)

theorem bareValue_append (g : Grammar) (t : Text) : (bareValue g t).1 ++ (bareValue g t).2 = t := by
  induction t with
  | nil => rfl
  | cons c t ih =>
    simp only [bareValue]
    split <;> simp [ih]

/-- A name or a value at the front of a text: what it says, how it is written, what follows. -/
structure Reading where
  content : Text
  written : Text
  rest : Text
  deriving DecidableEq, Repr

/-- Reads a verbatim span, or else whatever `bare` splits off. -/
def readContent (g : Grammar) (bare : Text → Text × Text) (pos : Nat) (t : Text) : Except Malformed Reading :=
  match g.quotedAt t with
  | .unclosed => .error (.unterminatedQuote pos)
  | .span body rest => .ok ⟨body, g.quote body, rest⟩
  | .absent => .ok ⟨(bare t).1, (bare t).1, (bare t).2⟩

/-- What is written and what follows are the whole text. -/
theorem eq_append_of_readContent {g : Grammar} {bare : Text → Text × Text} (hb : ∀ t, (bare t).1 ++ (bare t).2 = t)
    {pos : Nat} {t : Text} {r : Reading} (hr : readContent g bare pos t = .ok r) : t = r.written ++ r.rest := by
  simp only [readContent] at hr
  split at hr
  · contradiction
  · next hq =>
    simp only [Except.ok.injEq] at hr
    subst hr
    exact Grammar.eq_append_of_quotedAt hq
  · simp only [Except.ok.injEq] at hr
    subst hr
    exact (hb t).symm

/-- Reads the value at the front of `t`. -/
def readValue (g : Grammar) (pos : Nat) (t : Text) : Except Malformed Reading :=
  readContent g (bareValue g) pos t

theorem length_le_of_readValue {g : Grammar} {pos : Nat} {t : Text} {r : Reading}
    (hr : readValue g pos t = .ok r) : r.rest.length ≤ t.length := by
  rw [eq_append_of_readContent (bareValue_append g) hr, List.length_append]
  omega

/-- Reads the name at the front of `t`. -/
def readName (g : Grammar) (pos : Nat) (t : Text) : Except Malformed Reading :=
  readContent g (fun t => (t.takeWhile isPlainChar, t.dropWhile isPlainChar)) pos t

/-- Reads delimiters and values up to the end of `t`. A fault tells the text `whole` of the term. -/
@[semireducible]
def readParameters (g : Grammar) (h : g.Valid) (whole : Text) (pos : Nat) (t : Text) :
    Except Malformed (List Parameter) :=
  match t with
  | [] => .ok []
  | c :: t' =>
    match _ : g.leadingDelimiter? (c :: t') with
    | none => .error (.missingDelimiter pos whole)
    | some d =>
      match _ : readValue g (pos + Text.byteSize d) ((c :: t').drop d.length) with
      | .error e => .error e
      | .ok value =>
        (readParameters g h whole (pos + Text.byteSize (d ++ value.written)) value.rest).map
          (⟨d, value.content⟩ :: ·)
termination_by t.length
decreasing_by exact Nat.lt_of_le_of_lt (length_le_of_readValue ‹_›) (h.length_drop_lt ‹_›)

theorem readParameters_cons (g : Grammar) (h : g.Valid) (whole : Text) (pos : Nat) (c : Char) (t : Text) :
    readParameters g h whole pos (c :: t) =
      match g.leadingDelimiter? (c :: t) with
      | none => .error (.missingDelimiter pos whole)
      | some d =>
        match readValue g (pos + Text.byteSize d) ((c :: t).drop d.length) with
        | .error e => .error e
        | .ok value =>
          (readParameters g h whole (pos + Text.byteSize (d ++ value.written)) value.rest).map
            (⟨d, value.content⟩ :: ·) := by
  rw [readParameters]
  split
  · next hd => rw [hd]
  · next hd =>
    simp only [hd]
    split <;> next hv => rw [hv]

/-- Reads the term whose text `t` stands at the place `pos`. -/
def readAt (g : Grammar) (h : g.Valid) (pos : Nat) (t : Text) : Except Malformed Term :=
  match readName g pos t with
  | .error e => .error e
  | .ok name =>
    (readParameters g h t (pos + Text.byteSize name.written) name.rest).map fun parameters =>
      { name := name.content, parameters, grammar := g }

/-- Reads the term whose text `t` stands at the offset `base`. -/
def readFrom (g : Grammar) (h : g.Valid) (base : Nat) (t : Text) : Except Error Term :=
  (readAt g h 0 t).mapError (Malformed.told base)

/-- Reads a term from its text. -/
def read (g : Grammar) (t : Text) : Except Error Term :=
  g.reading fun h => readFrom g h 0 t

/-- Where a term stands matters only to the faults of its text. -/
theorem readFrom_eq_ok {g : Grammar} {h : g.Valid} {base : Nat} {t : Text} {a : Term} :
    readFrom g h base t = .ok a ↔ readAt g h 0 t = .ok a := Outcome.mapError_eq_ok

theorem read_eq_ok {g : Grammar} {t : Text} {a : Term} :
    read g t = .ok a ↔ ∃ h, readAt g h 0 t = .ok a := by
  rw [read, Grammar.reading_eq_ok]
  exact exists_congr fun _ => readFrom_eq_ok

end TermTree.Term
