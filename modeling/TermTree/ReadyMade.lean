/-
A stock of replacements and tests, for those who do not bring their own functions.
-/
import TermTree.Pattern
import TermTree.Selector
import TermTree.Term.Values

namespace TermTree

/-- Functions from a text to a text. -/
inductive TextFunction where
  /-- The letters of ASCII in upper case. -/
  | upper
  /-- The characters in reverse order. -/
  | reverse
  /-- The number of bytes, in decimal. -/
  | length
  /-- The text between two others. -/
  | wrap (front back : Text)
  deriving DecidableEq, Repr

/-- Functions that give what takes the place of the matching values of a term, one after the other. -/
inductive ValueFunction where
  | text (f : TextFunction)
  /-- The value followed by how many matching values there were so far, this one included. -/
  | count
  /-- The pieces between the occurrences of a separator. -/
  | split (sep : Text)
  /-- The value `n` times. -/
  | replicate (n : Nat)
  /-- The first, third and so on with an exclamation mark, the others doubled by the word `even`. -/
  | alternate
  deriving DecidableEq, Repr

/-- Tests of a term. -/
inductive TermTest where
  | always
  | never
  | nameStarts (t : Text)
  | hasValue (delimiter value : Text)
  | minParameters (n : Nat)
  /-- There is exactly one value on the delimiter. -/
  | hasOne (delimiter : Text)
  | equivalentToText (t : Text)
  | coversText (t : Text)
  | not (p : TermTest)
  deriving DecidableEq, Repr, Inhabited

/-- A number in decimal. -/
def Text.ofNat (n : Nat) : Text := Nat.toDigits 10 n

/-- The pieces of `t` between the occurrences of `sep`; an empty separator stands at every place. -/
def Text.splitOn (sep t : Text) : List Text :=
  if _hsep : sep = [] then [] :: t.map (fun c => [c]) ++ [[]]
  else
    match _ : Text.breakOn? sep t with
    | none => [t]
    | some (body, rest) => body :: Text.splitOn sep rest
termination_by t.length
decreasing_by
  have := congrArg List.length (Text.eq_append_of_breakOn? ‹_›)
  have := List.length_pos_iff.2 _hsep
  simp only [List.length_append] at *
  omega

/-- The text that a function makes of `t`. -/
def TextFunction.apply : TextFunction → Text → Text
  | .upper, t => t.map Char.toUpper
  | .reverse, t => t.reverse
  | .length, t => Text.ofNat t.byteSize
  | .wrap front back, t => front ++ t ++ back

/-- What a function makes of a matching value, after the matching values `earlier`. -/
def ValueFunction.apply : ValueFunction → List Text → Text → Replacement
  | .text f, _, t => .one (f.apply t)
  | .count, earlier, t => .one (t ++ Text.ofNat (earlier.length + 1))
  | .split sep, _, t => .many (Text.splitOn sep t)
  | .replicate n, _, t => .many (List.replicate n t)
  | .alternate, earlier, t =>
    if earlier.length % 2 == 0 then .one (t ++ ['!']) else .many [t, "even".toList]

/-- Whether a term passes the test; a text that cannot be read is never passed by. -/
def TermTest.holds : TermTest → Term → Bool
  | .always, _ => true
  | .never, _ => false
  | .nameStarts t, a => t.isPrefixOf a.name
  | .hasValue delimiter value, a => (a.valuesOn delimiter).contains value
  | .minParameters n, a => n ≤ a.parameters.length
  | .hasOne delimiter, a =>
    match a.onlyValue delimiter with
    | .ok (some _) => true
    | _ => false
  | .equivalentToText t, a => (Term.read a.grammar t).toOption.any a.equivalent
  | .coversText t, a => (Term.read a.grammar t).toOption.any a.covers
  | .not p, a => !p.holds a

/-- The selector of the occurrences whose term passes a test. -/
def TermTest.selector (p : TermTest) : Selector := .test fun a => p.holds a.term

end TermTree
