/-
Commands: the edits and questions that can be put to an occurrence of a term, as data, and what running one answers.
-/
import TermTree.Occurrence.Edit
import TermTree.Term.Comparison
import TermTree.Term.Values

namespace TermTree

/-- Something to do with a term, or to ask of it. -/
inductive Command where
  | name
  | text
  | parameters
  | setName (name : Text)
  | setNameIfEmpty (name : Text)
  | add (value delimiter : Text)
  | addIfAbsent (value delimiter : Text)
  /-- Adds a parameter at the end, whatever its delimiter. -/
  | append (p : Parameter)
  | reverse
  | clear
  | rename (pattern : Pattern) (change : NameChange)
  | renameByRules (rules : List (Pattern × NameChange))
  | takeFirst (pattern : Pattern) (delimiter : Text)
  | takeAll (pattern : Pattern) (delimiter : Text)
  | handFirst (pattern : Pattern) (delimiter : Text)
  | changeValues (pattern : Pattern) (change : ValueChange) (delimiter : Text)
  | reread (t : Text)
  | valuesOn (delimiter : Text)
  | onlyValue (delimiter : Text)
  | equivalent (other : Term)
  | identical (other : Term)
  | covers (other : Term)
  | equivalentToText (t : Text)
  | coversText (t : Text)

/-- What a command answers. -/
inductive Answer where
  | done
  | verdict (b : Bool)
  | text (t : Text)
  | maybe (t : Option Text)
  | texts (ts : List Text)
  | parameters (ps : List Parameter)
  /-- The values that a function was run on, of which there is at most one. -/
  | handed (value : Option Text)
  deriving DecidableEq, Repr

namespace Command
open TermTree.Editing

/-- Runs a command on the occurrence that is held. -/
def run : Command → Editing Occurrence Answer
  | .name => return .text (← held).term.name
  | .text => return .text (← held).term.toText
  | .parameters => return .parameters (← held).term.parameters
  | .setName n => Occurrence.change fun a => (.done, a.setName n)
  | .setNameIfEmpty n => return .verdict (← Occurrence.change (Term.setNameIfEmpty n))
  | .add value delimiter => do
    Occurrence.add value delimiter
    return .done
  | .addIfAbsent value delimiter => return .verdict (← Occurrence.addIfAbsent value delimiter)
  | .append p => Occurrence.change fun a => (.done, { a with parameters := a.parameters ++ [p] })
  | .reverse => Occurrence.change fun a => (.done, { a with parameters := a.parameters.reverse })
  | .clear => Occurrence.change fun a => (.done, { a with parameters := [] })
  | .rename pattern change => return .verdict (← Occurrence.change (Term.rename pattern change))
  | .renameByRules rules => return .verdict (← Occurrence.change (Term.renameByRules rules))
  | .takeFirst pattern delimiter => return .maybe (← Occurrence.change (Term.takeFirst pattern delimiter))
  | .takeAll pattern delimiter => return .texts (← Occurrence.change (Term.takeAll pattern delimiter))
  | .handFirst pattern delimiter => Occurrence.change fun a =>
    let hand (value : Text) : StateM (Option Text) Unit := set (some value)
    let (a, handed) := (a.handFirst pattern delimiter hand).run none
    (.handed handed, a)
  | .changeValues pattern change delimiter => Occurrence.change fun a => (.done, a.changeValues pattern change delimiter)
  | .reread t => do
    Occurrence.reread t
    return .done
  | .valuesOn delimiter => return .texts ((← held).term.valuesOn delimiter)
  | .onlyValue delimiter => return .maybe (← ofResult ((← held).term.onlyValue delimiter))
  | .equivalent other => return .verdict ((← held).term.equivalent other)
  | .identical other => return .verdict ((← held).term.identical other)
  | .covers other => return .verdict ((← held).term.covers other)
  | .equivalentToText t => return .verdict (← drawing ((← held).term.equivalentToText t))
  | .coversText t => return .verdict (← drawing ((← held).term.coversText t))

/-- Runs commands one after another. A command that fails does not keep the next from being run. -/
def runAll (cs : List Command) : StateM (Held Occurrence) (List (Except Error Answer)) := cs.mapM fun c => c.run.run

end Command
end TermTree
