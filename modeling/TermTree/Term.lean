/-
Terms: a name and an ordered list of parameters, each a value tagged with a delimiter, together
with the grammar the term is written in. Nothing relates the parts: a term may hold a delimiter
that its grammar does not have, and texts that cannot be read back.
-/
import TermTree.Error

namespace TermTree

/-- A value tagged with a delimiter. -/
structure Parameter where
  delimiter : Text
  value : Text
  deriving DecidableEq, Repr, Inhabited

/-- A name with parameters, and the grammar it is written in. -/
structure Term where
  name : Text
  parameters : List Parameter := []
  grammar : Grammar := {}
  deriving DecidableEq, Repr, Inhabited

end TermTree
