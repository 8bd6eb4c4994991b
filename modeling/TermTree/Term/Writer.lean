/-
Writing a term as text, such that what was read from a text can be read again.

A name is written bare if it could be read as one. A value is quoted where it would be split or
misread if it were bare; a value that holds the closing quote can only have been read bare, and
quoting would end it early, so it stays bare.
-/
import TermTree.Term.Reader

namespace TermTree.Term

/-- Whether `value` would be split or misread if it were written bare. -/
def mustQuote (g : Grammar) (value : Text) : Bool :=
  !Text.occursIn g.quoteClose value &&
    (g.delimiterOccursIn value || value.any (fun c => c == ' ' || c == '\t') || g.quoteOpen.isPrefixOf value ||
      Text.occursIn g.bracketOpen value || Text.occursIn g.bracketClose value)

/-- A name as it is written. -/
def nameText (g : Grammar) (name : Text) : Text :=
  if name.all isPlainChar then name else g.quote name

/-- A value as it is written. -/
def valueText (g : Grammar) (value : Text) : Text :=
  if mustQuote g value then g.quote value else value

/-- A parameter as it is written: its delimiter and its value. -/
def parameterText (g : Grammar) (p : Parameter) : Text := p.delimiter ++ valueText g p.value

/-- The text of a term. -/
def toText (a : Term) : Text :=
  nameText a.grammar a.name ++ a.parameters.flatMap (parameterText a.grammar)

end TermTree.Term
