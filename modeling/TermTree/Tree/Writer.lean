/-
The text of a tree. Children are joined by one space, and a child that is a group stands in the
brackets of the group that holds it. The root is never put in brackets.
-/
import TermTree.Term.Writer
import TermTree.Tree

namespace TermTree.Tree

/-- The text of a child as it stands in a group: a group is put in brackets. -/
def enclose (g : Grammar) (child : Shape) (text : Text) : Text :=
  match child with
  | .leaf => text
  | .group => g.bracketOpen ++ text ++ g.bracketClose

/-- The text of a tree whose leaves are written by `write`. -/
def textWith {α : Type} (write : α → Text) : Tree α → Text
  | leaf _ a => write a
  | group g cs => Text.joinWith [' '] (cs.map fun c => enclose g c.shape (textWith write c))

/-- The text of a tree of terms. -/
def termText (t : Tree Term) : Text := t.textWith Term.toText

/-- The text of a tree of occurrences. -/
def toText (t : Tree Occurrence) : Text := t.textWith fun a => a.term.toText

end TermTree.Tree
