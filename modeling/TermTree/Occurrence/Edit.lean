/-
Edits of an occurrence in place. One that fails keeps what it has changed until then, so each asks first whether it
can be carried out, and changes the term only then. No edit touches the grammar or the identity.
-/
import TermTree.Drawing
import TermTree.Term.Edit

namespace TermTree.Occurrence
open TermTree.Editing

/-- Runs an edit of a term that cannot fail. -/
def change (f : Term → α × Term) : Editing Occurrence α := do
  let a ← held
  let (answer, term) := f a.term
  put { a with term }
  return answer

/-- Adds a parameter at the end; the grammar must have its delimiter. -/
def add (value delimiter : Text) : Editing Occurrence Unit := do
  let a ← held
  if a.term.grammar.hasDelimiter delimiter then
    put { a with term := { a.term with parameters := a.term.parameters ++ [⟨delimiter, value⟩] } }
  else throw (.unknownDelimiter delimiter)

/-- Adds a parameter at the end unless the term has it, and tells whether it was added. Only if it has
to be added must the grammar have its delimiter. -/
def addIfAbsent (value delimiter : Text) : Editing Occurrence Bool := do
  let a ← held
  if ⟨delimiter, value⟩ ∈ a.term.parameters then return false
  else
    add value delimiter
    return true

/-- Takes name and parameters from a text, read in the term's grammar. The term that is read is given an identity, and
this is lost. -/
def reread (t : Text) : Editing Occurrence Unit := do
  let a ← held
  let new ← drawing (Occurrence.read a.term.grammar t)
  put { a with term := { a.term with name := new.term.name, parameters := new.term.parameters } }

end TermTree.Occurrence
