/-
Why a text does not read as a term, and where. Either a verbatim span opens and is never closed, or there is text
left over where no delimiter stands. Both are faults of the term's own text, at an offset within it
(`fault_of_readAt`).
-/
import TermTree.Proofs.Text.Offset
import TermTree.Term.Reader

namespace TermTree.Term

/-- A span of `whole`, which stands at `start`, opens at an offset and is not closed in it; or no delimiter stands
where something is left of `whole`. -/
inductive Fault (g : Grammar) (start : Nat) (whole : Text) : Malformed → Prop where
  | quote {o : Nat} {rest : Text} : Text.RestAt start whole o rest → g.quotedAt rest = .unclosed →
      Fault g start whole (.unterminatedQuote o)
  | delimiter {o : Nat} {rest : Text} : Text.RestAt start whole o rest → rest ≠ [] →
      (∀ d ∈ g.delimiters, ¬ d <+: rest) → Fault g start whole (.missingDelimiter o whole)

variable {g : Grammar} {h : g.Valid} {start pos : Nat} {whole t : Text} {fault : Malformed}

theorem fault_of_readContent {bare : Text → Text × Text} (hat : Text.RestAt start whole pos t)
    (hr : readContent g bare pos t = .error fault) : Fault g start whole fault := by
  simp only [readContent] at hr
  split at hr
  · next hq =>
    cases hr
    exact .quote hat hq
  · contradiction
  · contradiction

theorem restAt_of_leadingDelimiter? {d : Text} (hd : g.leadingDelimiter? t = some d) :
    Text.RestAt pos t (pos + Text.byteSize d) (t.drop d.length) :=
  ⟨d, Grammar.eq_append_of_leadingDelimiter? hd, rfl⟩

theorem restAt_of_readContent {bare : Text → Text × Text} (hb : ∀ t, (bare t).1 ++ (bare t).2 = t) {r : Reading}
    (hr : readContent g bare pos t = .ok r) : Text.RestAt pos t (pos + Text.byteSize r.written) r.rest := by
  rw [eq_append_of_readContent hb hr]
  exact .behind pos r.written r.rest

theorem fault_of_readParameters (hat : Text.RestAt start whole pos t)
    (hr : readParameters g h whole pos t = .error fault) : Fault g start whole fault := by
  fun_induction readParameters g h whole pos t with
  | case1 => contradiction
  | case2 pos c t hd =>
    cases hr
    exact .delimiter hat (List.cons_ne_nil c t) (Grammar.leadingDelimiter?_eq_none.1 hd)
  | case3 pos c t d hd e he =>
    cases hr
    exact fault_of_readContent (hat.trans (restAt_of_leadingDelimiter? hd)) he
  | case4 pos c t d hd value hv ih =>
    have hrest := (restAt_of_leadingDelimiter? hd).trans (restAt_of_readContent (bareValue_append g) hv)
    rw [Nat.add_assoc, ← Text.byteSize_append] at hrest
    exact ih (hat.trans hrest) (Outcome.map_eq_error.1 hr)

/-- **A text that does not read as a term has a span that is not closed, or lacks a delimiter.** -/
theorem fault_of_readAt (hr : readAt g h pos t = .error fault) : Fault g pos t fault := by
  rw [readAt] at hr
  split at hr
  · next e he =>
    cases hr
    exact fault_of_readContent (.start pos t) he
  · next name hname =>
    have hsplit : ∀ t : Text, t.takeWhile isPlainChar ++ t.dropWhile isPlainChar = t := fun _ =>
      List.takeWhile_append_dropWhile
    exact fault_of_readParameters (restAt_of_readContent hsplit hname) (Outcome.map_eq_error.1 hr)

end TermTree.Term
