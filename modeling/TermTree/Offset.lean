/-
Offsets. While a text is read the places in it are counted as they are; what is told of a place, an end of a token or
where a fault is, is an offset of 32 bits. Of the count only the low 32 bits are taken, so in a long text an offset may
be too large to tell, and a token may seem to end before it begins. As long as a text and what stands in front of it
have fewer bytes than there are offsets, the offset of a place is its count (`offsetOf_eq`).
-/
import TermTree.Error

namespace TermTree

/-- The offset of the place `pos` in a text that itself stands at the offset `base`. -/
def offsetOf (base pos : Nat) : Except Error Nat :=
  let offset := base + pos % UInt32.size
  if offset < UInt32.size then .ok offset else .error (.noOffset .tooLarge)

/-- The offsets of two places between which something stands. -/
def rangeOf (base start stop : Nat) : Except Error (Nat × Nat) := do
  let first ← offsetOf base start
  let last ← offsetOf base stop
  if first ≤ last then return (first, last) else throw (.noOffset .reversed)

/-- The same fault told of another offset. -/
def Malformed.withOffset (offset : Nat) : Malformed → Malformed
  | .unterminatedGroup _ => .unterminatedGroup offset
  | .unterminatedQuote _ => .unterminatedQuote offset
  | .missingDelimiter _ term => .missingDelimiter offset term

/-- What is told of a fault in a text that stands at the offset `base`. -/
def Malformed.told (base : Nat) (fault : Malformed) : Error :=
  match offsetOf base fault.offset with
  | .ok offset => .malformed (fault.withOffset offset)
  | .error e => e

theorem offsetOf_eq {base pos : Nat} (h : base + pos < UInt32.size) : offsetOf base pos = .ok (base + pos) := by
  have hpos : pos % UInt32.size = pos := Nat.mod_eq_of_lt (by omega)
  rw [offsetOf, hpos, if_pos h]

theorem rangeOf_eq {base start stop : Nat} (hle : start ≤ stop) (h : base + stop < UInt32.size) :
    rangeOf base start stop = .ok (base + start, base + stop) := by
  rw [rangeOf, offsetOf_eq (by omega : base + start < UInt32.size), offsetOf_eq h]
  show (if base + start ≤ base + stop then _ else _) = _
  rw [if_pos (by omega)]
  rfl

theorem Malformed.withOffset_add (base : Nat) (fault : Malformed) :
    fault.withOffset (base + fault.offset) = fault.shift base := by
  cases fault <;> rfl

theorem Malformed.told_eq {base : Nat} {fault : Malformed} (h : base + fault.offset < UInt32.size) :
    fault.told base = .malformed (fault.shift base) := by
  rw [told, offsetOf_eq h, ← withOffset_add]

end TermTree
