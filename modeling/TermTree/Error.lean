/-
What can go wrong, as causes, and the sentence that tells each of them. A text that breaks its
grammar does so at a place: a byte offset into the text that was given to be read, also where the
fault lies inside a group. The other causes have no place.
-/
import TermTree.Grammar

namespace TermTree

/-- Where and how a text breaks its grammar. -/
inductive Malformed where
  /-- The group opened at `offset` is never closed. -/
  | unterminatedGroup (offset : Nat)
  /-- The verbatim span opened at `offset` is never closed. -/
  | unterminatedQuote (offset : Nat)
  /-- No delimiter stands at `offset`, where the term with the text `term` needs one. -/
  | missingDelimiter (offset : Nat) (term : Text)
  deriving DecidableEq, Repr

/-- The two shapes of a node. -/
inductive Shape where
  | leaf
  | group
  deriving DecidableEq, Repr

/-- Why a place in a text has no offset. -/
inductive OffsetFault where
  /-- The offset is larger than 32 bits can hold. -/
  | tooLarge
  /-- A range would end before it begins. -/
  | reversed
  deriving DecidableEq, Repr

/-- Why an operation fails. -/
inductive Error where
  /-- A text breaks the grammar it is read with. -/
  | malformed (fault : Malformed)
  /-- A single value was asked for and the term has several. -/
  | multipleValues (term : Text) (delimiter : Text)
  /-- A node has the other shape. -/
  | wrongShape (expected found : Shape)
  /-- A group without children has no first child. -/
  | emptyGroup
  /-- The grammar is not usable. -/
  | invalidGrammar (fault : GrammarFault)
  /-- A parameter was added under a delimiter that the grammar does not have. -/
  | unknownDelimiter (delimiter : Text)
  /-- A text is too long for its places to be told as offsets. -/
  | noOffset (fault : OffsetFault)
  deriving DecidableEq, Repr

/-- The offset at which the text breaks. -/
def Malformed.offset : Malformed → Nat
  | .unterminatedGroup offset => offset
  | .unterminatedQuote offset => offset
  | .missingDelimiter offset _ => offset

/-- The same fault in a text that has `n` more bytes in front. -/
def Malformed.shift (n : Nat) : Malformed → Malformed
  | .unterminatedGroup offset => .unterminatedGroup (n + offset)
  | .unterminatedQuote offset => .unterminatedQuote (n + offset)
  | .missingDelimiter offset term => .missingDelimiter (n + offset) term

/-- The fault in words. -/
def Malformed.message : Malformed → String
  | .unterminatedGroup offset => s!"group opened at offset {offset} is never closed"
  | .unterminatedQuote offset => s!"quoted text opened at offset {offset} is never closed"
  | .missingDelimiter offset term =>
    s!"expected a parameter delimiter at offset {offset} in `{String.ofList term}`"

/-- The marker in words. -/
def Marker.description : Marker → String
  | .bracketOpen => "bracket open"
  | .bracketClose => "bracket close"
  | .quoteOpen => "quote open"
  | .quoteClose => "quote close"

/-- The fault in words. -/
def GrammarFault.message : GrammarFault → String
  | .emptyMarker marker => s!"{marker.description} marker is empty"
  | .noDelimiters => "no delimiters configured"
  | .emptyDelimiter => "empty delimiter"

/-- The fault in words. -/
def OffsetFault.message : OffsetFault → String
  | .tooLarge => "offset does not fit in 32 bits"
  | .reversed => "range ends before it begins"

/-- The shape in words. -/
def Shape.description : Shape → String
  | .leaf => "leaf"
  | .group => "group"

namespace Error

/-- The cause in words. -/
def message : Error → String
  | .malformed fault => fault.message
  | .multipleValues term delimiter =>
    s!"`{String.ofList term}` has multiple values for `{String.ofList delimiter}`"
  | .wrongShape expected found =>
    s!"expected a {expected.description} node, found a {found.description} node"
  | .emptyGroup => "cannot split a group without children"
  | .invalidGrammar fault => s!"invalid grammar: {fault.message}"
  | .unknownDelimiter delimiter => s!"unknown delimiter `{String.ofList delimiter}`"
  | .noOffset fault => fault.message

/-- The offset at which a text breaks; only malformed texts have one. -/
def offset? : Error → Option Nat
  | .malformed fault => some fault.offset
  | _ => none

/-- Whether the cause is a text that breaks its grammar. -/
def isMalformed (e : Error) : Bool := e.offset?.isSome

end Error

/-- Reads with a usable grammar; one that is not usable is refused before anything is read. -/
def Grammar.reading {m : Type → Type} [MonadExceptOf Error m] (g : Grammar) (read : g.Valid → m α) : m α :=
  match h : g.fault? with
  | some fault => throw (.invalidGrammar fault)
  | none => read (Grammar.fault?_eq_none_iff.1 h)

section
variable {m : Type → Type} [MonadExceptOf Error m] {g : Grammar}

theorem Grammar.Valid.reading_eq (h : g.Valid) (read : g.Valid → m α) : g.reading read = read h := by
  unfold Grammar.reading
  split
  · next fault hf => rw [Grammar.fault?_eq_none_iff.2 h] at hf; contradiction
  · rfl

theorem Grammar.reading_eq_throw {fault : GrammarFault} (h : g.fault? = some fault) (read : g.Valid → m α) :
    g.reading read = throw (.invalidGrammar fault) := by
  unfold Grammar.reading
  split
  · next f hf => rw [h] at hf; simp_all
  · next hf => rw [h] at hf; contradiction

end

/-- Something is read exactly when the grammar is usable and the reader succeeds. -/
theorem Grammar.reading_eq_ok {g : Grammar} {read : g.Valid → Except Error α} {a : α} :
    g.reading read = .ok a ↔ ∃ h, read h = .ok a := by
  constructor
  · intro hr
    cases hf : g.fault? with
    | some fault =>
      rw [reading_eq_throw hf] at hr
      contradiction
    | none =>
      have h := fault?_eq_none_iff.1 hf
      rw [h.reading_eq] at hr
      exact ⟨h, hr⟩
  · rintro ⟨h, hr⟩
    rw [h.reading_eq, hr]

end TermTree
