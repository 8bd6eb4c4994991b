/-
Edits of a term that cannot fail. Each gives the term after the edit, with what else it has to tell. No edit touches
the grammar.
-/
import TermTree.Pattern
import TermTree.Term

namespace TermTree.Term

/-! ## The name -/

/-- Gives the term the name `name`. -/
def setName (name : Text) (a : Term) : Term := { a with name }

/-- Gives a term without a name the name `name`, and tells whether it had none. -/
def setNameIfEmpty (name : Text) (a : Term) : Bool × Term :=
  if a.name.isEmpty then (true, a.setName name) else (false, a)

/-- Changes the name if the pattern matches it, and tells whether it does. -/
def rename (pattern : Pattern) (change : NameChange) (a : Term) : Bool × Term :=
  if pattern.isMatch a.name then (true, a.setName (pattern.substitute a.name (change.resolve a.name)))
  else (false, a)

/-- Changes the name by the first rule whose pattern matches it, and tells whether there is one. -/
def renameByRules : List (Pattern × NameChange) → Term → Bool × Term
  | [], a => (false, a)
  | (pattern, change) :: rules, a =>
    match a.rename pattern change with
    | (true, a) => (true, a)
    | (false, a) => a.renameByRules rules

/-! ## Taking parameters out -/

/-- Whether a parameter is on the delimiter and its value matches. -/
def matching (pattern : Pattern) (delimiter : Text) (p : Parameter) : Bool :=
  p.delimiter = delimiter && pattern.isMatch p.value

/-- Takes out the first matching parameter, and gives its value. -/
def takeFirst (pattern : Pattern) (delimiter : Text) (a : Term) : Option Text × Term :=
  match a.parameters.find? (matching pattern delimiter) with
  | none => (none, a)
  | some p => (some p.value, { a with parameters := a.parameters.eraseP (matching pattern delimiter) })

/-- Takes out the first matching parameter, and hands its value to `f`; without one `f` is not run. -/
def handFirst [Monad m] (pattern : Pattern) (delimiter : Text) (f : Text → m Unit) (a : Term) : m Term :=
  match a.takeFirst pattern delimiter with
  | (none, a) => pure a
  | (some value, a) => do
    f value
    return a

/-- Takes out all matching parameters, and gives their values. -/
def takeAll (pattern : Pattern) (delimiter : Text) (a : Term) : List Text × Term :=
  let (taken, kept) := a.parameters.partition (matching pattern delimiter)
  (taken.map (·.value), { a with parameters := kept })

/-! ## Changing values -/

/-- The parameters that take the place of one whose value matches. -/
def changedTo (pattern : Pattern) (p : Parameter) : Replacement → List Parameter
  | .one new => [{ p with value := pattern.substitute p.value new }]
  | .many ts => ts.map fun t => { p with value := t }

/-- Puts what `f` gives for the value in the place of every matching parameter, from left to right. -/
def changeValuesM [Monad m] (pattern : Pattern) (f : Text → m Replacement) (delimiter : Text) (a : Term) : m Term := do
  let parameters ← a.parameters.mapM fun p =>
    if matching pattern delimiter p then changedTo pattern p <$> f p.value else pure [p]
  return { a with parameters := parameters.flatten }

/-- What a change gives for the next matching value, which joins those before it. -/
def nextReplacement (change : ValueChange) (value : Text) : StateM (List Text) Replacement :=
  modifyGet fun earlier => (change.resolve earlier value, earlier ++ [value])

/-- Changes the value of every matching parameter. -/
def changeValues (pattern : Pattern) (change : ValueChange) (delimiter : Text) (a : Term) : Term :=
  ((a.changeValuesM pattern (nextReplacement change) delimiter).run []).1

end TermTree.Term
