/-
Occurrences: terms with an identity. Two occurrences of equal terms are told apart by their
identities, and an edit of a term leaves the identity as it is. Identities come from a supply that
never gives one twice.
-/
import TermTree.Term

namespace TermTree

/-- The identity of an occurrence. -/
abbrev Id := Nat

/-- A term at one place. -/
structure Occurrence where
  id : Id
  term : Term
  deriving DecidableEq, Repr, Inhabited

/-- Where identities come from: `next` and everything above it has not been given yet. -/
structure Supply where
  next : Id := 0
  deriving DecidableEq, Repr, Inhabited

/-- Gives an identity that was not given before. -/
def Supply.draw : StateM Supply Id := modifyGet fun s => (s.next, ⟨s.next + 1⟩)

namespace Occurrence

/-- An occurrence of a term with a fresh identity. -/
def fresh (term : Term) : StateM Supply Occurrence := do
  return { id := ← Supply.draw, term }

/-- Runs an edit on the term of an occurrence; the edit also sees the identity, and cannot change it. -/
def edit [Monad m] (f : Occurrence → m Term) (a : Occurrence) : m Occurrence := do
  return { a with term := ← f a }

end Occurrence
end TermTree
