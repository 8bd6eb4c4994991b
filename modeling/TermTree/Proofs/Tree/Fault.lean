/-
Where a text cannot be read as a tree. Groups are read as texts of their own, at the offset at which they stand, and
blanks are trimmed off each of them; yet the offset of a fault is one of the whole text, and the culprit stands there
(`read_eq_error_pointsInto`).
-/
import Mathlib.Algebra.Group.Nat.Defs
import TermTree.Proofs.Tree.Reached
import TermTree.Proofs.Tree.Told

namespace TermTree

namespace Tree
open Token
variable {g : Grammar} {h : g.Valid} {pos : Nat} {t u : Text} {fault : Malformed}

/-- At whatever depth a term is at fault, the culprit stands in the whole text. -/
theorem TermFails.pointsInto (hf : TermFails g t fault) : fault.PointsInto g 0 t := by
  obtain ⟨_, _, _, _, hu, ht, token, hm, -, he⟩ := hf
  obtain ⟨_, hrun⟩ := exists_runs_of_ok ht
  obtain ⟨after, htoken⟩ := (hu.standsIn hrun token hm).start
  exact (Term.fault_of_readAt he).pointsInto.within htoken

theorem pointsInto_of_readAt (hr : readAt g h 0 t = .error fault) : fault.PointsInto g 0 t := by
  rcases Reached.whole.tokensAt_eq_error_or_termFails hr with ⟨pos, u, hu, he⟩ | hterm
  · obtain ⟨after, hafter⟩ := hu.restAt
    exact (pointsInto_of_tokensAt he).within hafter
  · exact hterm.pointsInto

theorem Reached.add_leadingBlanks_le (hu : Reached g t pos u) :
    pos + Text.byteSize (Text.leadingBlanks u) ≤ Text.byteSize t := by
  obtain ⟨after, hafter⟩ := hu.restAt
  have hle := hafter.add_byteSize_le
  obtain ⟨before, hsplit, hsize⟩ := Text.restAt_trim pos u
  rw [hsplit, Text.byteSize_append] at hle
  omega

/-- **A fault is reported where it is in the whole text.** With a usable grammar nothing but the text can be at
fault. The offset of the fault lies in front of a character of the text, and there stands the culprit, at whatever
depth it is. No offset that is computed on the way, in front of a text or at an end of a token, is larger than the
text; so 32 bits hold it if they hold the size of the text. -/
theorem read_eq_error_pointsInto {g : Grammar} (hv : g.Valid) {t : Text} (hsize : Text.byteSize t < 2 ^ 32) :
    (∀ e, read g t = .error e → ∃ fault, e = .malformed fault ∧ fault.PointsInto g 0 t ∧
      fault.offset < Text.byteSize t ∧ ∃ rest, Text.RestAt 0 t fault.offset rest) ∧
    ∀ pos u, Reached g t pos u → pos + Text.byteSize (Text.leadingBlanks u) < 2 ^ 32 ∧
      ∀ tokens pos' u', Runs g hv (pos + Text.byteSize (Text.leadingBlanks u)) (Text.trim u) tokens pos' u' →
        ∀ token ∈ tokens, token.start < 2 ^ 32 ∧ token.stop < 2 ^ 32 := by
  constructor
  · intro e he
    rw [read_eq hv hsize] at he
    obtain ⟨fault, hr, rfl⟩ := Outcome.mapError_eq_error.1 he
    have hpoints := pointsInto_of_readAt hr
    obtain ⟨rest, hrest, hne⟩ := hpoints.exists_restAt hv
    have hlt := hrest.lt hne
    rw [Nat.zero_add] at hlt
    exact ⟨fault, rfl, hpoints, hlt, rest, hrest⟩
  · intro pos u hu
    refine ⟨Nat.lt_of_le_of_lt hu.add_leadingBlanks_le hsize, fun tokens pos' u' hrun token hm => ?_⟩
    obtain ⟨-, hstart, hstop⟩ := (hu.standsIn hrun token hm).bounds
    rw [Nat.zero_add] at hstop
    exact ⟨by omega, by omega⟩

/-- A delimiter is missing two groups deep, behind characters of two and three bytes, with a blank at each depth. -/
theorem read_eq_error_nested :
    Grammar.Valid {} ∧
    Text.byteSize ['\u3000', '\x7b', '\x60', 'é', '\x60', ' ', '\x7b', ' ', 'b', ',', '\x7d', '\x7d'] < 2 ^ 32 ∧
    read {} ['\u3000', '\x7b', '\x60', 'é', '\x60', ' ', '\x7b', ' ', 'b', ',', '\x7d', '\x7d'] =
      .error (.malformed (.missingDelimiter 12 ['b', ','])) ∧
    (Malformed.missingDelimiter 12 ['b', ',']).PointsInto {} 0
      ['\u3000', '\x7b', '\x60', 'é', '\x60', ' ', '\x7b', ' ', 'b', ',', '\x7d', '\x7d'] := by
  have hsize : Text.byteSize ['\u3000', '\x7b', '\x60', 'é', '\x60', ' ', '\x7b', ' ', 'b', ',', '\x7d', '\x7d'] < 2 ^ 32 := by decide
  have hread : read {} ['\u3000', '\x7b', '\x60', 'é', '\x60', ' ', '\x7b', ' ', 'b', ',', '\x7d', '\x7d'] =
      .error (.malformed (.missingDelimiter 12 ['b', ','])) := rfl
  obtain ⟨_, he, hpoints, -⟩ := (read_eq_error_pointsInto Grammar.valid_default hsize).1 _ hread
  cases he
  exact ⟨Grammar.valid_default, hsize, hread, hpoints⟩

end Tree
end TermTree
