/-
Blanks, and the trimming of a text. A blank is a character with the Unicode property White_Space;
the zero-width characters (U+200B, U+2060, U+FEFF) and U+180E do not have it. Trimming takes the
blanks off both ends and nothing else (`leadingBlanks_append_trim_append`).
-/
import TermTree.Text
import TermTree.Unicode.Ranges

namespace TermTree.Text

/-- The code points with the property White_Space. -/
def blankRanges : List (Nat × Nat) :=
  [(0x09, 0x0D), (0x20, 0x20), (0x85, 0x85), (0xA0, 0xA0), (0x1680, 0x1680), (0x2000, 0x200A),
   (0x2028, 0x2029), (0x202F, 0x202F), (0x205F, 0x205F), (0x3000, 0x3000)]

/-- Whether `c` is a blank. -/
def isBlank (c : Char) : Bool := Unicode.inRanges blankRanges c

/-- The blanks at the front of `t`. -/
def leadingBlanks (t : Text) : Text := t.takeWhile isBlank

/-- `t` without the blanks at its front. -/
def trimStart (t : Text) : Text := t.dropWhile isBlank

/-- The blanks at the end of `t`. -/
def trailingBlanks (t : Text) : Text := (t.reverse.takeWhile isBlank).reverse

/-- `t` without the blanks at its end. -/
def trimEnd (t : Text) : Text := (t.reverse.dropWhile isBlank).reverse

/-- `t` without the blanks at its two ends. -/
def trim (t : Text) : Text := trimEnd (trimStart t)

theorem leadingBlanks_append_trimStart (t : Text) : leadingBlanks t ++ trimStart t = t :=
  List.takeWhile_append_dropWhile

theorem trimEnd_append_trailingBlanks (t : Text) : trimEnd t ++ trailingBlanks t = t := by
  rw [trimEnd, trailingBlanks, ← List.reverse_append, List.takeWhile_append_dropWhile, List.reverse_reverse]

/-- Trimming takes away the blanks at both ends and nothing else. -/
theorem leadingBlanks_append_trim_append (t : Text) :
    leadingBlanks t ++ trim t ++ trailingBlanks (trimStart t) = t := by
  rw [trim, List.append_assoc, trimEnd_append_trailingBlanks, leadingBlanks_append_trimStart]

theorem length_trim_le (t : Text) : (trim t).length ≤ t.length := by
  have h := congrArg List.length (leadingBlanks_append_trim_append t)
  simp only [List.length_append] at h
  omega

end TermTree.Text
