/-
Selectors and replacers for display: what they are made of, with texts in quotes. A function is not
shown.
-/
import TermTree.Pattern
import TermTree.Selector
import TermTree.Term.Writer
import TermTree.Text.Quoted

namespace TermTree

/-- A constructor's name with what it is applied to. -/
def displayCall (name : String) (argument : Text) : Text := name.toList ++ ['('] ++ argument ++ [')']

/-- What stands for a function. -/
def displayHidden : Text := ['.', '.']

/-- Texts in quotes, as a list. -/
def displayTexts (ts : List Text) : Text := ['['] ++ Text.joinWith [',', ' '] (ts.map Text.quoted) ++ [']']

/-- A replacement for display. -/
def Replacement.display : Replacement → Text
  | .one t => displayCall "One" t.quoted
  | .many ts => displayCall "Many" (displayTexts ts)

/-- A replacer for display. -/
def ValueChange.display : ValueChange → Text
  | .fixed r => displayCall "Fixed" r.display
  | .computed _ => displayCall "With" displayHidden

/-- A name replacer for display. -/
def NameChange.display : NameChange → Text
  | .fixed t => displayCall "Text" t.quoted
  | .computed _ => displayCall "With" displayHidden

/-- A selector for display; a term is shown by its text. -/
def Selector.display : Selector → Text
  | .name t => displayCall "Name" t.quoted
  | .term a => displayCall "Arg" a.toText.quoted
  | .test _ => displayCall "Predicate" displayHidden

end TermTree
