/-
Tokens at a seam. Behind a text that has been read to its end, a separator ends the last token and nothing
before it is read differently: the tokens of the longer text are those of the first part and then those of
the second (`readTokens_append`, `tokensAt_append`). This needs markers that cannot go on behind the seam;
markers without blanks cannot (`Grammar.Unblank.clearOf`).
-/
import TermTree.Proofs.Grammar.Span
import TermTree.Proofs.Token.Scan

namespace TermTree

/-- No marker can go on in `t`. -/
def Grammar.ClearOf (g : Grammar) (t : Text) : Prop := ∀ m, Text.ClearOf (g.markerText m) t

/-- No marker holds a blank. -/
def Grammar.Unblank (g : Grammar) : Prop := ∀ m, ∀ c ∈ g.markerText m, Text.isBlank c = false

theorem Token.isBlank_of_isSeparator {c : Char} (h : Token.isSeparator c = true) : Text.isBlank c = true := by
  simp only [Token.isSeparator, Bool.or_eq_true, beq_iff_eq] at h
  rcases h with rfl | rfl <;> decide

theorem Token.isSeparator_of_not_isBlank {c : Char} (h : Text.isBlank c = false) : Token.isSeparator c = false := by
  rw [← Bool.not_eq_true]
  intro hc
  rw [Token.isBlank_of_isSeparator hc] at h
  contradiction

theorem Grammar.Unblank.clearOf {g : Grammar} (hg : g.Unblank) {t : Text}
    (ht : ∀ c ∈ t.head?, Text.isBlank c = true) : g.ClearOf t := by
  intro m c hc hm
  have hno := hg m c hm
  rw [ht c hc] at hno
  contradiction

namespace Token
variable {g : Grammar} {h : g.Valid}

theorem ScansGroup.append {depth : Nat} {t inside rest u : Text} (hu : g.ClearOf u)
    (hs : ScansGroup g depth t inside rest) : ScansGroup g depth (t ++ u) inside (rest ++ u) := by
  have hnone : ∀ m t, Text.after? (g.markerText m) t = none → Text.after? (g.markerText m) (t ++ u) = none := by
    intro m t ht
    rw [Text.after?_append_of_clearOf (hu m), ht]
    rfl
  induction hs with
  | last hc => exact .last (Text.after?_append_of_eq_some u hc)
  | closing hc _ ih => exact .closing (Text.after?_append_of_eq_some u hc) ih
  | opening hc ho _ ih => exact .opening (hnone .bracketClose _ hc) (Text.after?_append_of_eq_some u ho) ih
  | span hc ho hq _ ih =>
    exact .span (hnone .bracketClose _ hc) (hnone .bracketOpen _ ho) (Grammar.quotedAt_append_of_span u hq) ih
  | char hc ho hq _ ih =>
    exact .char (hnone .bracketClose _ hc) (hnone .bracketOpen _ ho)
      (Grammar.quotedAt_append_of_absent (hu .quoteOpen) hq) ih

/-- At the end of its text a term also ends in front of a separator. -/
theorem ScansLeaf.append (h : g.Valid) {t text rest u : Text} (hq : Text.ClearOf g.quoteOpen u)
    (hu : ∀ c ∈ u.head?, isSeparator c = true) (hs : ScansLeaf g t text rest) :
    ScansLeaf g (t ++ u) text (rest ++ u) := by
  induction hs with
  | nil =>
    cases u with
    | nil => exact .nil
    | cons c u => exact .stop (Grammar.quotedAt_of_clearOf h hq) (hu c (by simp))
  | stop habs hsep => exact .stop (Grammar.quotedAt_append_of_absent hq habs) hsep
  | span hspan _ ih => exact .span (Grammar.quotedAt_append_of_span u hspan) ih
  | char habs hsep _ ih => exact .char (Grammar.quotedAt_append_of_absent hq habs) hsep ih

theorem readToken_append {pos : Nat} {t rest u : Text} {token : Token} (hc : g.ClearOf u)
    (hu : ∀ c ∈ u.head?, isSeparator c = true) (hr : readToken g h pos t = .ok (token, rest)) :
    readToken g h pos (t ++ u) = .ok (token, rest ++ u) := by
  have hopen := Text.after?_append_of_clearOf (s := t) (hc .bracketOpen)
  simp only [Grammar.markerText] at hopen
  rw [readToken_eq_ok] at hr ⊢
  rcases hr with ⟨inside, text, hi, hs, rfl⟩ | ⟨hno, text, hs, rfl⟩
  · rw [hi] at hopen
    exact .inl ⟨inside ++ u, text, hopen, hs.append hc, rfl⟩
  · rw [hno] at hopen
    exact .inr ⟨hopen, text, hs.append h (hc .quoteOpen) hu, rfl⟩

/-- The tokens of a text that goes on behind a separator are those before the separator and those behind
it. -/
theorem readTokens_append {pos : Nat} {t u : Text} {tokens : List Token} (ht : t ≠ []) (hc : g.ClearOf u)
    (hu : ∀ c ∈ u.head?, isSeparator c = true) (hr : readTokens g h pos t = .ok tokens) :
    readTokens g h pos (t ++ u) =
      (readTokens g h (pos + Text.byteSize (t ++ u.takeWhile isSeparator)) (u.dropWhile isSeparator)).map
        (tokens ++ ·) := by
  fun_induction readTokens g h pos t generalizing tokens with
  | case1 => exact absurd rfl ht
  | case2 => simp at hr
  | case3 pos c t' first hf ih =>
    obtain ⟨others, ho, rfl⟩ := Outcome.map_eq_ok.1 hr
    have hwhole := congrArg Text.byteSize (eq_append_of_readToken hf)
    have hparts := congrArg Text.byteSize (List.takeWhile_append_dropWhile (p := isSeparator) (l := first.2))
    have hf' := readToken_append hc hu hf
    simp only [Text.byteSize_append] at hwhole hparts
    rw [List.cons_append] at hf' ⊢
    rw [readTokens_cons, hf']
    simp only [List.dropWhile_append, List.takeWhile_append]
    by_cases hend : first.2.dropWhile isSeparator = []
    · -- the first token was the last one: the seam lies in the separators behind it
      have hall : first.2.takeWhile isSeparator = first.2 := by
        simpa [hend] using List.takeWhile_append_dropWhile (p := isSeparator) (l := first.2)
      have hothers : others = [] := by
        rw [hend] at ho
        simpa [readTokens, eq_comm] using ho
      simp only [hend, hall, hothers, List.isEmpty_nil, if_true, Text.byteSize_append, hwhole]
      simp [Nat.add_assoc]
    · have hlen : (first.2.takeWhile isSeparator).length ≠ first.2.length := by
        intro hl
        have := congrArg List.length (List.takeWhile_append_dropWhile (p := isSeparator) (l := first.2))
        rw [List.length_append, hl] at this
        exact hend (List.length_eq_zero_iff.1 (by omega))
      rw [if_neg hlen, if_neg (by simpa using hend), ih hend ho, Outcome.map_map]
      have hpos : pos + Text.byteSize (first.1.piece g ++ first.2.takeWhile isSeparator) +
            Text.byteSize (first.2.dropWhile isSeparator ++ u.takeWhile isSeparator) =
          pos + Text.byteSize (c :: t' ++ u.takeWhile isSeparator) := by
        simp only [Text.byteSize_append] at hwhole ⊢
        omega
      rw [hpos]
      rfl

/-- **The tokens of two texts joined by separators are those of the first and then those of the second.** -/
theorem tokensAt_append {pos : Nat} {s w t : Text} {tokens : List Token} (hg : g.Unblank) (hw : w ≠ [])
    (hws : ∀ c ∈ w, isSeparator c = true) (hs : ∀ c ∈ Text.trailingBlanks s, isSeparator c = true)
    (ht : ∀ c ∈ Text.leadingBlanks t, isSeparator c = true) (hr : tokensAt g h pos s = .ok tokens) :
    tokensAt g h pos (s ++ w ++ t) =
      (tokensAt g h (pos + Text.byteSize (s ++ w)) t).map (tokens ++ ·) := by
  have hwb : ∀ c ∈ w, Text.isBlank c = true := fun c hc => isBlank_of_isSeparator (hws c hc)
  by_cases hs0 : Text.trim s = []
  · have htokens : tokens = [] := by
      rw [tokensAt, hs0] at hr
      simpa [readTokens, eq_comm] using hr
    have hsw : ∀ c ∈ s ++ w, Text.isBlank c = true := fun c hc =>
      (List.mem_append.1 hc).elim (Text.trim_eq_nil_iff.1 hs0 c) (hwb c)
    obtain ⟨hlead, htrim⟩ := Text.trim_append_of_blank hsw t
    simp only [tokensAt, htokens, hlead, htrim, List.nil_append, Text.byteSize_append, Nat.add_assoc]
    exact (Outcome.map_id _).symm
  · by_cases ht0 : Text.trim t = []
    · have hwt : ∀ c ∈ w ++ t, Text.isBlank c = true := fun c hc =>
        (List.mem_append.1 hc).elim (hwb c) (Text.trim_eq_nil_iff.1 ht0 c)
      obtain ⟨hlead, htrim⟩ := Text.trim_append_blank hs0 hwt
      rw [List.append_assoc, tokensAt, hlead, htrim, ← tokensAt, hr, tokensAt, ht0]
      simp only [readTokens, Outcome.map_ok, List.append_nil]
    · obtain ⟨hlead, htrim⟩ := Text.trim_append_append w hs0 ht0
      -- the two bodies and the separators between them are the body of the whole
      generalize hseps : Text.trailingBlanks s ++ w ++ Text.leadingBlanks t = seps at htrim
      have hsep : ∀ c ∈ seps, isSeparator c = true := by
        subst hseps
        simp only [List.mem_append]
        rintro c ((hc | hc) | hc)
        · exact hs c hc
        · exact hws c hc
        · exact ht c hc
      have hbody : ∀ c ∈ (Text.trim t).head?, isSeparator c = false := fun c hc =>
        isSeparator_of_not_isBlank ((Text.trimmed_trim t).1 c hc)
      have hne : seps ≠ [] := by
        subst hseps
        simp [hw]
      obtain ⟨c, u, rfl⟩ := List.exists_cons_of_ne_nil hne
      have hhead : ∀ d ∈ (c :: u ++ Text.trim t).head?, isSeparator d = true := by
        simpa using hsep c (by simp)
      have hclear := hg.clearOf fun d hd => isBlank_of_isSeparator (hhead d hd)
      obtain ⟨htake, hdrop⟩ := Text.cut_append hsep hbody
      rw [tokensAt, hlead, htrim, List.append_assoc, readTokens_append hs0 hclear hhead hr, htake, hdrop, tokensAt]
      have hpos : pos + Text.byteSize (Text.leadingBlanks s) + Text.byteSize (Text.trim s ++ c :: u) =
          pos + Text.byteSize (s ++ w) + Text.byteSize (Text.leadingBlanks t) := by
        have hsize := congrArg Text.byteSize (Text.eq_append_trim_append hs0)
        have hseps' := congrArg Text.byteSize hseps
        simp only [Text.byteSize_append] at hsize hseps' ⊢
        omega
      rw [hpos]

end Token
end TermTree
