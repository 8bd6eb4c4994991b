/-
Patterns that names and values are matched with, and what takes the place of a match. A literal matches
the text that is equal to it; a regular expression matches a text in which it is found. Of a regular expression
no more is asked than where it is found and what a replacement text stands for there: how it is written, and how it is
looked for, is left to those who bring it as a `Matcher`.
-/
import TermTree.Text

namespace TermTree

/-- A match in a text: what lies before it, what it covers, what lies behind it, and its groups. -/
structure Found where
  before : Text
  covered : Text
  behind : Text
  groups : List (Nat × Text)
  deriving DecidableEq, Repr

/-- What is found in texts: the leftmost match in a text, if there is one, and what a replacement text stands for
at a match. -/
structure Matcher where
  find? : Text → Option Found
  expand : Found → Text → Text
  /-- A match is a piece of the text. -/
  eq_append : ∀ (t : Text) (found : Found), find? t = some found →
    t = found.before ++ found.covered ++ found.behind

namespace Matcher

/-- Whether there is a match in a text. -/
def isMatch (m : Matcher) (t : Text) : Bool := (m.find? t).isSome

/-- The text with its leftmost match replaced by what `template` stands for there. -/
def replaceFirst (m : Matcher) (t template : Text) : Text :=
  match m.find? t with
  | none => t
  | some found => found.before ++ m.expand found template ++ found.behind

end Matcher

/-- A test of a name or a value. -/
inductive Pattern where
  | literal (t : Text)
  | regex (m : Matcher)

/-- What takes the place of a matching value. -/
inductive Replacement where
  /-- Takes the place of the first match inside the value. -/
  | one (t : Text)
  /-- Takes the place of the parameter: one parameter for each text. -/
  | many (ts : List Text)
  deriving DecidableEq, Repr

/-- How matching values change: all alike, or each as computed from the matching values before it, in
order, and the value itself. -/
inductive ValueChange where
  | fixed (r : Replacement)
  | computed (f : List Text → Text → Replacement)

/-- How a matching name changes. -/
inductive NameChange where
  | fixed (t : Text)
  | computed (f : Text → Text)

namespace Pattern

/-- Whether the pattern matches `t`. -/
def isMatch : Pattern → Text → Bool
  | literal l, t => t == l
  | regex m, t => m.isMatch t

/-- A text with its first match replaced. For a regular expression the replacement may refer to groups of the
match; a literal is replaced by the replacement as it is, where it first stands in the text. -/
def substitute : Pattern → Text → Text → Text
  | literal l, t, new => Text.replaceFirst l new t
  | regex m, t, new => m.replaceFirst t new

end Pattern

/-- What takes the place of a matching value, after the matching values `earlier`. -/
def ValueChange.resolve : ValueChange → List Text → Text → Replacement
  | .fixed r, _, _ => r
  | .computed f, earlier, t => f earlier t

/-- What takes the place of a matching name. -/
def NameChange.resolve : NameChange → Text → Text
  | .fixed new, _ => new
  | .computed f, t => f t

end TermTree
