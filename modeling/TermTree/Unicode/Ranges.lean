/-
Character classes as tables: a class is a list of intervals of code points, in ascending order,
and a character belongs to it when one of the intervals holds its code point.
-/
namespace TermTree.Unicode

/-- Whether one of the intervals `(lo, hi)` holds the code point of `c`. -/
def inRanges (ranges : List (Nat × Nat)) (c : Char) : Bool :=
  ranges.any fun (lo, hi) => lo ≤ c.toNat && c.toNat ≤ hi

theorem inRanges_iff {ranges : List (Nat × Nat)} {c : Char} :
    inRanges ranges c = true ↔ ∃ r ∈ ranges, r.1 ≤ c.toNat ∧ c.toNat ≤ r.2 := by
  simp [inRanges]

end TermTree.Unicode
