/-
Regular expressions as patterns. A pattern may come as a text that is to be compiled; whether it is a pattern shows
only then.
-/
import TermTree.Regex.Expansion

namespace TermTree

/-- A regular expression, looked for in texts. -/
def Regex.matcher (r : Regex) : Matcher where
  find? := r.find?
  expand := Regex.expand r.names
  eq_append _ _ := Regex.eq_append_of_search?

/-- A pattern as it is given, before it is known whether it is one. -/
inductive PatternSource where
  | literal (t : Text)
  | regex (source : Text)
  deriving DecidableEq, Repr

/-- The pattern that is meant, if the source is one. -/
def PatternSource.compile? : PatternSource → Option Pattern
  | .literal t => some (.literal t)
  | .regex source => (Regex.compile? source).map fun r => .regex r.matcher

end TermTree
