/-
Quoted display of a text: the text between double quotes, with the characters that a reader could
not see or could mistake written as escapes.
-/
import TermTree.Text

namespace TermTree.Text

/-- The digits of a code point in hexadecimal, lower case. -/
def hexDigits (n : Nat) : Text := Nat.toDigits 16 n

/-- One character of a quoted display; control characters of ASCII are written by their number. -/
def escaped (c : Char) : Text :=
  match c with
  | '"' => ['\\', '"']
  | '\\' => ['\\', '\\']
  | '\n' => ['\\', 'n']
  | '\t' => ['\\', 't']
  | '\r' => ['\\', 'r']
  | '\x00' => ['\\', '0']
  | c =>
    if c.toNat < 0x20 || c.toNat == 0x7F then
      ['\\', 'u', '\x7b'] ++ hexDigits c.toNat ++ ['\x7d']
    else [c]

/-- `t` in double quotes, escaped. -/
def quoted (t : Text) : Text := '"' :: t.flatMap escaped ++ ['"']

end TermTree.Text
