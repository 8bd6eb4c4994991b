/-
Regular expressions as data: sets of characters, places, sequences, choices in order of preference,
repetitions, and groups that are remembered by number.
-/
import TermTree.Text.Blank
import TermTree.Unicode.CaseFold
import TermTree.Unicode.DecimalDigit
import TermTree.Unicode.Word

namespace TermTree.Regex

/-- The named classes of characters. -/
inductive CharClass where
  | digit
  | blank
  | word
  deriving DecidableEq, Repr

/-- One item of a set: an interval, or a named class or what lies outside it. -/
inductive SetItem where
  | range (lo hi : Char)
  | named (outside : Bool) (cls : CharClass)
  deriving DecidableEq, Repr

/-- A set of characters. -/
inductive CharSet where
  /-- Every character but the line feed. -/
  | notLineFeed
  /-- The characters of some item, or with `outside` those of none. -/
  | ofItems (outside : Bool) (items : List SetItem)
  deriving DecidableEq, Repr

/-- A regular expression. -/
inductive Expr where
  | empty
  | one (set : CharSet)
  /-- The start of the text. -/
  | start
  /-- The end of the text. -/
  | finish
  /-- A place between a word character and another one or an end of the text; `outside`: any other place. -/
  | wordBoundary (outside : Bool)
  | seq (a b : Expr)
  /-- `a`, or if that leads nowhere `b`. -/
  | alt (a b : Expr)
  /-- `a` any number of times: as often as possible if `greedy`, else as seldom as possible. -/
  | star (greedy : Bool) (a : Expr)
  /-- `a`, remembered under a number. -/
  | group (index : Nat) (a : Expr)
  deriving DecidableEq, Repr

/-- Whether `c` belongs to the class. -/
def CharClass.holds : CharClass → Char → Bool
  | .digit, c => Unicode.isDecimalDigit c
  | .blank, c => Text.isBlank c
  | .word, c => Unicode.isWordChar c

/-- Whether `c` belongs to the item. -/
def SetItem.holds : SetItem → Char → Bool
  | .range lo hi, c => lo ≤ c && c ≤ hi
  | .named outside cls, c => outside != cls.holds c

/-- Whether `c` belongs to the set; if case is ignored, whether one of its variants in case is in an item. -/
def CharSet.holds (ignoreCase : Bool) : CharSet → Char → Bool
  | .notLineFeed, c => c != '\n'
  | .ofItems outside items, c =>
    let variants := if ignoreCase then Unicode.caseVariants c else [c]
    outside != variants.any fun v => items.any (·.holds v)

/-- The set of one character. -/
def CharSet.single (c : Char) : CharSet := .ofItems false [.range c c]

namespace Expr

/-- `a` exactly `n` times, and then `b`. -/
def times (a : Expr) : Nat → Expr → Expr
  | 0, b => b
  | n + 1, b => .seq a (times a n b)

/-- `a` or nothing. -/
def optional (greedy : Bool) (a : Expr) : Expr := if greedy then .alt a .empty else .alt .empty a

/-- `a` at most `n` times. -/
def atMost (greedy : Bool) (a : Expr) : Nat → Expr
  | 0 => .empty
  | n + 1 => optional greedy (.seq a (atMost greedy a n))

end Expr
end TermTree.Regex
