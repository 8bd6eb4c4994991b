/-
Selectors choose leaves. Removal takes the leaves that a selector equals, selection those that contain
what it asks for; a bare name stands for a term without parameters in both.
-/
import TermTree.Occurrence
import TermTree.Term.Comparison

namespace TermTree

/-- A choice of leaves. -/
inductive Selector where
  /-- A bare name. -/
  | name (t : Text)
  /-- A term, compared leniently. -/
  | term (a : Term)
  /-- A test of the occurrence. -/
  | test (p : Occurrence → Bool)

namespace Selector

/-- Whether removal takes the occurrence. -/
def removes : Selector → Occurrence → Bool
  | name t, a => a.term.name == t && a.term.parameters.isEmpty
  | term b, a => a.term.equivalent b
  | test p, a => p a

/-- Whether selection takes the occurrence. -/
def selects : Selector → Occurrence → Bool
  | name t, a => a.term.name == t
  | term b, a => a.term.covers b
  | test p, a => p a

end Selector
end TermTree
