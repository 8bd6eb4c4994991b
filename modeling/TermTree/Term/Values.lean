/-
The values of a term on one delimiter: all of them in order, or the only one.
-/
import TermTree.Term.Writer

namespace TermTree.Term

/-- The values on a delimiter, in order, duplicates included. -/
def valuesOn (a : Term) (delimiter : Text) : List Text :=
  (a.parameters.filter (·.delimiter = delimiter)).map (·.value)

/-- The only value on a delimiter, if there is one; several are refused. -/
def onlyValue (a : Term) (delimiter : Text) : Except Error (Option Text) :=
  match a.valuesOn delimiter with
  | [] => .ok none
  | [v] => .ok (some v)
  | _ :: _ :: _ => .error (.multipleValues a.toText delimiter)

end TermTree.Term
