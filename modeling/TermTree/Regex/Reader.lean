/-
Reading a regular expression from its source.

A character stands for itself, except `.` (any character but a line feed), `^` and `$` (the two ends
of the text), `\d \w \s \b` and their opposites, classes in square brackets, groups in round brackets
(`(?: )` is not remembered, `(?<name> )` and `(?P<name> )` have a name too), `|`, and the repetitions
`* + ?` and `{n}`, `{n,}`, `{n,m}`, lazy with a `?` behind them. A source that begins with `(?i)`
ignores case. What does not follow these rules is no regular expression.

The readers recurse on a bound on what is still to be read; `Regex.compile?` starts them with a bound
that no source exhausts, since each step inwards takes a character.
-/
import TermTree.Regex.Expr

namespace TermTree

/-- A regular expression with the names of its groups. -/
structure Regex where
  expr : Regex.Expr
  ignoreCase : Bool
  /-- The names of the groups with their numbers. -/
  names : List (Text × Nat)
  deriving DecidableEq, Repr

namespace Regex

/-- What is left of a source, the number of groups begun so far, and the names among them. -/
structure Reading where
  rest : Text
  groups : Nat := 0
  names : List (Text × Nat) := []

/-- A reader of a part of a source; it may find that there is none. -/
abbrev Reader := StateT Reading Option

namespace Reader

/-- What is left of the source. -/
def rest : Reader Text := return (← get).rest

/-- Goes on at `t`. -/
def goTo (t : Text) : Reader Unit := modify fun r => { r with rest := t }

/-- Goes on only if `b` holds. -/
def check (b : Bool) : Reader Unit := if b then return else failure

/-- Takes the character `c`, which must stand next. -/
def expect (c : Char) : Reader Unit := do
  match ← rest with
  | d :: t => if c = d then goTo t else failure
  | [] => failure

/-- Begins a group that is remembered, and gives its number. -/
def beginGroup (name : Option Text) : Reader Nat := do
  let r ← get
  let index := r.groups + 1
  match name with
  | none => set { r with groups := index }
  | some name =>
    check (r.names.lookup name).isNone
    set { r with groups := index, names := r.names ++ [(name, index)] }
  return index

end Reader

open Reader

/-- Whether `c` may begin the name of a group. -/
def isGroupNameStart (c : Char) : Bool := c.isAlpha || c == '_'

/-- Whether `c` may stand in the name of a group. -/
def isGroupNameChar (c : Char) : Bool :=
  isGroupNameStart c || c.isDigit || c == '.' || c == '[' || c == ']'

/-- The name of a group and the `>` behind it. -/
def readGroupName : Reader Text := do
  let t ← rest
  let name := t.takeWhile isGroupNameChar
  check (name.head?.any isGroupNameStart)
  goTo (t.dropWhile isGroupNameChar)
  expect '>'
  return name

/-- The class that a letter behind a backslash names. -/
def classNamed? : Char → Option SetItem
  | 'd' => some (.named false .digit)
  | 'D' => some (.named true .digit)
  | 's' => some (.named false .blank)
  | 'S' => some (.named true .blank)
  | 'w' => some (.named false .word)
  | 'W' => some (.named true .word)
  | _ => none

/-- The character that a letter or a sign behind a backslash stands for. -/
def escapedChar? : Char → Option Char
  | 'n' => some '\n'
  | 't' => some '\t'
  | 'r' => some '\r'
  | 'f' => some '\x0c'
  | 'v' => some '\x0b'
  | 'a' => some '\x07'
  | c =>
    if c.toNat < 0x80 && 0x20 < c.toNat && c.toNat != 0x7F && !c.isAlphanum && c != '<' && c != '>' then some c
    else none

/-- A number of repetitions. -/
def readCount : Reader Nat := do
  let t ← rest
  let digits := t.takeWhile Char.isDigit
  check (!digits.isEmpty)
  goTo (t.dropWhile Char.isDigit)
  return digits.foldl (fun n d => 10 * n + (d.toNat - '0'.toNat)) 0

/-- Whether a repetition just read is greedy: it is unless a `?` follows. -/
def readGreedy : Reader Bool := do
  match ← rest with
  | '?' :: t => goTo t; return false
  | _ => return true

/-- The repetitions that follow `a`, if any. -/
def readRepetitions : Nat → Expr → Reader Expr
  | 0, _ => failure
  | fuel + 1, a => do
    match ← rest with
    | '*' :: t =>
      goTo t
      readRepetitions fuel (.star (← readGreedy) a)
    | '+' :: t =>
      goTo t
      readRepetitions fuel (.seq a (.star (← readGreedy) a))
    | '?' :: t =>
      goTo t
      readRepetitions fuel (.optional (← readGreedy) a)
    | '\x7b' :: t =>
      goTo t
      let low ← readCount
      match ← rest with
      | ',' :: '\x7d' :: t =>
        goTo t
        readRepetitions fuel (a.times low (.star (← readGreedy) a))
      | ',' :: t =>
        goTo t
        let high ← readCount
        check (low ≤ high)
        expect '\x7d'
        readRepetitions fuel (a.times low (.atMost (← readGreedy) a (high - low)))
      | _ =>
        expect '\x7d'
        let _ ← readGreedy
        readRepetitions fuel (a.times low .empty)
    | _ => return a

/-- One character of a class that may be the end of an interval. -/
def readClassChar : Reader Char := do
  match ← rest with
  | '\\' :: c :: t =>
    goTo t
    match escapedChar? c with
    | some c => return c
    | none => failure
  | '\\' :: [] => failure
  | '[' :: _ => failure
  | c :: t => goTo t; return c
  | [] => failure

/-- The items of a class up to its closing bracket. -/
def readItems : Nat → List SetItem → Reader (List SetItem)
  | 0, _ => failure
  | fuel + 1, items => do
    match ← rest with
    | ']' :: t =>
      if items.isEmpty then
        goTo t
        readItems fuel [.range ']' ']']
      else
        goTo t
        return items
    | '\\' :: c :: t =>
      match classNamed? c with
      | some item =>
        goTo t
        readItems fuel (items ++ [item])
      | none => readInterval fuel items
    | _ => readInterval fuel items
where
  /-- A character or an interval of a class, and the items behind it. -/
  readInterval (fuel : Nat) (items : List SetItem) : Reader (List SetItem) := do
    let lo ← readClassChar
    match ← rest with
    | '-' :: ']' :: _ => readItems fuel (items ++ [.range lo lo])
    | '-' :: t =>
      goTo t
      let hi ← readClassChar
      check (lo ≤ hi)
      readItems fuel (items ++ [.range lo hi])
    | _ => readItems fuel (items ++ [.range lo lo])

/-- A class behind its opening bracket. -/
def readClass (fuel : Nat) : Reader Expr := do
  match ← rest with
  | '^' :: t =>
    goTo t
    return .one (.ofItems true (← readItems fuel []))
  | _ => return .one (.ofItems false (← readItems fuel []))

/-- What stands behind a backslash outside classes. -/
def readEscape : Reader Expr := do
  match ← rest with
  | [] => failure
  | c :: t =>
    goTo t
    match c with
    | 'b' => return .wordBoundary false
    | 'B' => return .wordBoundary true
    | 'A' => return .start
    | 'z' => return .finish
    | c =>
      match classNamed? c, escapedChar? c with
      | some item, _ => return .one (.ofItems false [item])
      | none, some c => return .one (.single c)
      | none, none => failure

mutual

/-- Choices, up to a closing bracket or the end. -/
def readChoices : Nat → Reader Expr
  | 0 => failure
  | fuel + 1 => do
    let a ← readSequence fuel
    match ← rest with
    | '|' :: t =>
      goTo t
      return .alt a (← readChoices fuel)
    | _ => return a

/-- A sequence, up to the end of the choice it belongs to. -/
def readSequence : Nat → Reader Expr
  | 0 => failure
  | fuel + 1 => do
    match ← rest with
    | [] => return .empty
    | '|' :: _ => return .empty
    | ')' :: _ => return .empty
    | c :: t =>
      goTo t
      let a ← readAtom fuel c
      let a ← readRepetitions fuel a
      return .seq a (← readSequence fuel)

/-- What begins with the character `c`, which has been taken. -/
def readAtom : Nat → Char → Reader Expr
  | 0, _ => failure
  | fuel + 1, c => do
    match c with
    | '.' => return .one .notLineFeed
    | '^' => return .start
    | '$' => return .finish
    | '\\' => readEscape
    | '[' => readClass fuel
    | '*' => failure
    | '+' => failure
    | '?' => failure
    | '\x7b' => failure
    | '(' =>
      match ← rest with
      | '?' :: ':' :: t =>
        goTo t
        let a ← readChoices fuel
        expect ')'
        return a
      | '?' :: 'P' :: '<' :: t =>
        goTo t
        readNamedGroup fuel
      | '?' :: '<' :: t =>
        goTo t
        readNamedGroup fuel
      | '?' :: _ => failure
      | _ =>
        let index ← beginGroup none
        let a ← readChoices fuel
        expect ')'
        return .group index a
    | c => return .one (.single c)

/-- A group from its name on. -/
def readNamedGroup : Nat → Reader Expr
  | 0 => failure
  | fuel + 1 => do
    let name ← readGroupName
    let index ← beginGroup (some name)
    let a ← readChoices fuel
    expect ')'
    return .group index a

end

/-- Reads a regular expression from its source. -/
def compile? (source : Text) : Option Regex := do
  let (ignoreCase, source) :=
    match source with
    | '(' :: '?' :: 'i' :: ')' :: t => (true, t)
    | _ => (false, source)
  let (expr, r) ← (readChoices (4 * source.length + 4)).run { rest := source }
  if r.rest.isEmpty then some { expr, ignoreCase, names := r.names } else none

end Regex
end TermTree
