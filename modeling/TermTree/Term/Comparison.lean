/-
Comparing terms. Strictly, two terms are the same when names and parameter lists are. Leniently,
parameters count as sets of values, one for each delimiter: their order and how often one stands there
do not matter. Grammars are never compared.
-/
import TermTree.Drawing
import TermTree.Term.ValueSets

namespace TermTree.Term

/-- Whether two terms have the same name and the same parameters in the same order. -/
def identical (a b : Term) : Bool := a.name == b.name && a.parameters == b.parameters

/-- Whether `a` has the name of `b` and, on each delimiter, every value of `b`. -/
def covers (a b : Term) : Bool := a.name == b.name && b.valueSets.within a.valueSets

/-- Whether two terms have the same name and, on each delimiter, the same set of values. -/
def equivalent (a b : Term) : Bool := a.name == b.name && a.valueSets = b.valueSets

/-- Lenient comparison with a term read from `t` in this term's grammar; the identity that it is given is lost. -/
def equivalentToText (a : Term) (t : Text) : Drawing Bool := do
  return a.equivalent (← Occurrence.read a.grammar t).term

/-- Containment of a term read from `t` in this term's grammar; the identity that it is given is lost. -/
def coversText (a : Term) (t : Text) : Drawing Bool := do
  return a.covers (← Occurrence.read a.grammar t).term

end TermTree.Term
