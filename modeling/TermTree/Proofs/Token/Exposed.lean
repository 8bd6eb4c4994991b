/-
What the token readers look at. Both readers skip verbatim spans, so they depend on the exposed characters
only: a text is one term when no separator is exposed (`scansLeaf_of_undivided`), and it is the inside of a
group when the exposed brackets are balanced (`scansGroup_of_closes`). The other way round, what the readers
take is of this kind (`undivided_of_scansLeaf`, `closes_of_scansGroup`).
-/
import TermTree.Proofs.Grammar.Simple
import TermTree.Proofs.Text.Nesting
import TermTree.Proofs.Token.Scan

namespace TermTree

/-- All spans of `t` are closed and no separator stands outside them. -/
def Grammar.Undivided (g : Grammar) (t : Text) : Prop :=
  ∃ e, g.Exposes t e ∧ ∀ c ∈ e, Token.isSeparator c = false

/-- All spans of `t` are closed, and the brackets `o` and `c` outside them close `depth` groups and each
other. -/
def Grammar.Closes (g : Grammar) (o c : Char) (depth : Nat) (t : Text) : Prop :=
  ∃ e, g.Exposes t e ∧ Text.Nests o c depth e

theorem Grammar.Closes.append {g : Grammar} {o c : Char} {depth : Nat} {s t : Text} (hq : g.quoteOpen.length = 1)
    (hs : g.Closes o c 0 s) (ht : g.Closes o c depth t) : g.Closes o c depth (s ++ t) := by
  obtain ⟨e, he, hn⟩ := hs
  obtain ⟨f, hf, hm⟩ := ht
  exact ⟨e ++ f, he.append hq hf, hn.append hm⟩

namespace Token
variable {g : Grammar}

theorem scansLeaf_of_undivided (h : g.Valid) {t : Text} (ht : g.Undivided t) : ScansLeaf g t t [] := by
  obtain ⟨e, he, hs⟩ := ht
  induction he with
  | nil => exact .nil
  | span hspan _ ih => exact .of_span h hspan (ih hs)
  | @char c t e habs _ ih => exact .char habs (hs c (by simp)) (ih fun d hd => hs d (by simp [hd]))

theorem undivided_of_scansLeaf (h : g.Valid) {t text rest : Text} (hs : ScansLeaf g t text rest) :
    g.Undivided text := by
  induction hs with
  | nil => exact ⟨[], .nil, by simp⟩
  | stop => exact ⟨[], .nil, by simp⟩
  | span hq _ ih =>
    obtain ⟨e, he, hsep⟩ := ih
    rw [Grammar.eq_append_of_quotedAt hq] at hq
    exact ⟨e, .span (Grammar.quotedAt_quote_append _ hq) he, hsep⟩
  | @char c t text rest hq hsep hs ih =>
    obtain ⟨e, he, hseps⟩ := ih
    rw [hs.eq_append h, ← List.cons_append] at hq
    refine ⟨c :: e, .char (Grammar.quotedAt_of_append_absent hq) he, fun d hd => ?_⟩
    rcases List.mem_cons.1 hd with rfl | hd
    · exact hsep
    · exact hseps d hd

/-! ## Groups with brackets of one character -/

section
variable {o c q : Char} (ho : g.bracketOpen = [o]) (hc : g.bracketClose = [c]) (hq : g.quoteOpen = [q])
  (hoc : o ≠ c) (hoq : o ≠ q) (hcq : c ≠ q)
include ho hc hq hoc hoq hcq

theorem scansGroup_of_closes {depth : Nat} {inside : Text} (rest : Text) (hi : g.Closes o c depth inside) :
    ScansGroup g depth (inside ++ c :: rest) inside rest := by
  have hclose : ∀ (x : Char) (t : Text), x ≠ c → Text.after? g.bracketClose (x :: t) = none := by
    intro x t hx
    simp [hc, Text.after?, hx.symm]
  have hopen : ∀ (x : Char) (t : Text), x ≠ o → Text.after? g.bracketOpen (x :: t) = none := by
    intro x t hx
    simp [ho, Text.after?, hx.symm]
  obtain ⟨e, he, hn⟩ := hi
  induction he generalizing depth with
  | nil =>
    obtain rfl := Text.Nests.nil_iff.1 hn
    exact .last (by simp [hc, Text.after?])
  | @span body t e hspan _ ih =>
    have hspan' := Grammar.quotedAt_append_of_span (c :: rest) hspan
    obtain ⟨u, hu⟩ : ∃ u, g.quote body ++ t ++ c :: rest = q :: u := ⟨_, by rw [Grammar.quote, hq]; rfl⟩
    rw [hu] at hspan' ⊢
    exact .span (hclose q u hcq.symm) (hopen q u hoq.symm) hspan' (ih hn)
  | @char x t e habs _ ih =>
    by_cases hxc : x = c
    · subst hxc
      cases depth with
      | zero => exact absurd hn (Text.Nests.not_cons_close hoc)
      | succ depth =>
        have hafter : Text.after? g.bracketClose (x :: (t ++ x :: rest)) = some (t ++ x :: rest) := by
          simp [hc, Text.after?]
        have hscan := ScansGroup.closing hafter (ih ((Text.Nests.cons_close hoc).1 hn))
        rwa [hc] at hscan
    · by_cases hxo : x = o
      · subst hxo
        have hafter : Text.after? g.bracketOpen (x :: (t ++ c :: rest)) = some (t ++ c :: rest) := by
          simp [ho, Text.after?]
        have hscan := ScansGroup.opening (hclose x _ hxc) hafter (ih ((Text.Nests.cons_open hoc).1 hn))
        rwa [ho] at hscan
      · refine .char (hclose x _ hxc) (hopen x _ hxo) ?_ (ih ((Text.Nests.cons_other hxo hxc).1 hn))
        rw [Grammar.quotedAt_eq_absent_iff_head? hq] at habs ⊢
        exact habs

theorem closes_of_scansGroup (h : g.Valid) {depth : Nat} {t inside rest : Text}
    (hs : ScansGroup g depth t inside rest) : g.Closes o c depth inside := by
  have hchar : ∀ (x : Char) (t : Text), x ≠ q → g.quotedAt (x :: t) = .absent := by
    intro x t hx
    rw [Grammar.quotedAt_eq_absent_iff_head? hq]
    simpa using hx
  induction hs with
  | last => exact ⟨[], .nil, Text.Nests.nil_iff.2 rfl⟩
  | @closing depth x t r inside rest _ _ ih =>
    obtain ⟨e, he, hn⟩ := ih
    rw [hc]
    exact ⟨c :: e, .char (hchar c inside hcq) he, (Text.Nests.cons_close hoc).2 hn⟩
  | @opening depth x t r inside rest _ _ _ ih =>
    obtain ⟨e, he, hn⟩ := ih
    rw [ho]
    exact ⟨o :: e, .char (hchar o inside hoq) he, (Text.Nests.cons_open hoc).2 hn⟩
  | span _ _ hspan _ ih =>
    obtain ⟨e, he, hn⟩ := ih
    rw [Grammar.eq_append_of_quotedAt hspan] at hspan
    exact ⟨e, .span (Grammar.quotedAt_quote_append _ hspan) he, hn⟩
  | @char depth x t inside rest hnc hno habs hs ih =>
    obtain ⟨e, he, hn⟩ := ih
    have hxc : x ≠ c := by
      rintro rfl
      simp [hc, Text.after?] at hnc
    have hxo : x ≠ o := by
      rintro rfl
      simp [ho, Text.after?] at hno
    rw [hs.eq_append h, List.append_assoc, ← List.cons_append] at habs
    exact ⟨x :: e, .char (Grammar.quotedAt_of_append_absent habs) he, (Text.Nests.cons_other hxo hxc).2 hn⟩

end

end Token
end TermTree
