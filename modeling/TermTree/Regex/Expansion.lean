/-
Finding the leftmost match, and what a replacement text stands for at it. The text may refer to groups of the match: `$name`, where
the name is the longest run of letters, digits and `_` of ASCII, or `${name}` with anything up to the
`}`; a name that is a number is a group's number, and 0 is the whole match. `$$` is a dollar sign, and a
dollar sign with nothing to refer to stands for itself. A group that does not exist, or took no part in
the match, has the empty text.
-/
import TermTree.Regex.Matching
import TermTree.Regex.Reader

namespace TermTree.Regex

/-- A part of a replacement text. -/
inductive TemplatePart where
  | char (c : Char)
  | group (name : Text)
  deriving DecidableEq, Repr

/-- Whether `c` may stand in a name that is not in braces. -/
def isReferenceChar (c : Char) : Bool := c.isAlphanum || c == '_'

/-- What the text behind a dollar sign makes of it, and the text that is left. -/
def readReference (t : Text) : TemplatePart × Text :=
  match t with
  | '$' :: rest => (.char '$', rest)
  | '\x7b' :: inside =>
    match Text.breakOn? ['\x7d'] inside with
    | some (name, rest) => (.group name, rest)
    | none => (.char '$', t)
  | _ =>
    match t.takeWhile isReferenceChar with
    | [] => (.char '$', t)
    | name => (.group name, t.dropWhile isReferenceChar)

theorem length_readReference_le (t : Text) : (readReference t).2.length ≤ t.length := by
  unfold readReference
  split
  · simp
  · split
    · next h =>
      have := Text.length_le_of_breakOn? h
      simp only [List.length_cons]
      omega
    · exact Nat.le_refl _
  · split
    · exact Nat.le_refl _
    · exact (List.dropWhile_sublist _).length_le

/-- The parts of a replacement text. -/
def templateParts (t : Text) : List TemplatePart :=
  match t with
  | [] => []
  | '$' :: rest => (readReference rest).1 :: templateParts (readReference rest).2
  | c :: rest => .char c :: templateParts rest
termination_by t.length
decreasing_by
  · exact Nat.lt_succ_of_le (length_readReference_le rest)
  · simp

/-- The number that a name is, written in digits with or without a plus sign. -/
def groupNumber? (name : Text) : Option Nat :=
  let digits := if name.head? = some '+' then name.tail else name
  if digits.isEmpty || !digits.all Char.isDigit then none
  else some (digits.foldl (fun n d => 10 * n + (d.toNat - '0'.toNat)) 0)

/-- The text of the group that a name refers to. -/
def groupText (names : List (Text × Nat)) (found : Found) (name : Text) : Text :=
  match groupNumber? name with
  | some 0 => found.covered
  | some n => (found.groups.lookup n).getD []
  | none =>
    match names.lookup name with
    | some n => (found.groups.lookup n).getD []
    | none => []

/-- A replacement text with the references to a match filled in. -/
def expand (names : List (Text × Nat)) (found : Found) (template : Text) : Text :=
  (templateParts template).flatMap fun
    | .char c => [c]
    | .group name => groupText names found name

/-- The leftmost match in a text. -/
def find? (r : Regex) (t : Text) : Option Found := search? r.ignoreCase r.expr none t

end TermTree.Regex
