/-
Trees whose text can be taken apart again. In a legible tree the text of each leaf is one undivided term,
the text of each group inside another is balanced, and no group's text ends in a blank that trimming would
take off. The text of a legible tree of restorable terms reads as the tree (`readAt_termText`).
-/
import TermTree.Proofs.Term.Prefix
import TermTree.Proofs.Token.Exposed
import TermTree.Proofs.Token.Seam
import TermTree.Proofs.Tree.Exact
import TermTree.Tree.Writer

namespace TermTree

/-- All spans of `t` are closed, and the brackets outside them are balanced. -/
def Grammar.Balanced (g : Grammar) (t : Text) : Prop :=
  ∃ o c, g.bracketOpen = [o] ∧ g.bracketClose = [c] ∧ g.Closes o c 0 t

theorem Grammar.Balanced.closes {g : Grammar} {t : Text} {o c : Char} (h : g.Balanced t) (ho : g.bracketOpen = [o])
    (hc : g.bracketClose = [c]) : g.Closes o c 0 t := by
  obtain ⟨o', c', ho', hc', h⟩ := h
  cases ho.symm.trans ho'
  cases hc.symm.trans hc'
  exact h

namespace Tree

/-- Every node, and every term in a leaf, has the grammar `g`. -/
inductive Uniform (g : Grammar) : Tree Term → Prop where
  | leaf {a : Term} : a.grammar = g → Uniform g (leaf g a)
  | group {cs : List (Tree Term)} : (∀ c ∈ cs, Uniform g c) → Uniform g (group g cs)

/-- The text of the tree can be cut into the texts of its nodes again. -/
inductive Legible (g : Grammar) : Tree Term → Prop where
  | leaf {g' : Grammar} {a : Term} : a.toText ≠ [] → g.Undivided a.toText → Legible g (leaf g' a)
  | group {g' : Grammar} {cs : List (Tree Term)} : (∀ c ∈ cs, Legible g c) →
      (∀ c ∈ cs, c.shape = .group → g.Balanced c.termText) →
      (∀ x ∈ (group g' cs).termText.getLast?, Text.isBlank x = false) → Legible g (group g' cs)

/-- A child as it stands in the text of a group. -/
def piece (g : Grammar) (c : Tree Term) : Text := enclose g c.shape c.termText

theorem termText_leaf (g : Grammar) (a : Term) : (leaf g a).termText = a.toText := by
  rw [termText, textWith]

theorem termText_group (g : Grammar) (cs : List (Tree Term)) :
    (group g cs).termText = Text.joinWith [' '] (cs.map (piece g)) := by
  rw [termText, textWith]
  rfl

theorem piece_leaf (g g' : Grammar) (a : Term) : piece g (leaf g' a) = a.toText := termText_leaf g' a

theorem piece_group (g g' : Grammar) (cs : List (Tree Term)) :
    piece g (group g' cs) = g.bracketOpen ++ (group g' cs).termText ++ g.bracketClose := rfl

open Token
variable {g : Grammar} {h : g.Valid}

/-- A child whose piece is read as the child wherever it stands. -/
structure ReadsAlone (g : Grammar) (h : g.Valid) (c : Tree Term) : Prop where
  ne_nil : piece g c ≠ []
  head : ∀ x ∈ (piece g c).head?, Text.isBlank x = false
  read : ∀ pos, ∃ token, readTokens g h pos (piece g c) = .ok [token] ∧ ofToken g h token = .ok c

theorem head?_pieces {cs : List (Tree Term)} (hp : ∀ c ∈ cs, ReadsAlone g h c) :
    ∀ x ∈ (Text.joinWith [' '] (cs.map (piece g))).head?, Text.isBlank x = false := by
  cases cs with
  | nil => simp [Text.joinWith]
  | cons c cs =>
    have hc := hp c (by simp)
    intro x hx
    refine hc.head x ?_
    obtain ⟨y, u, hy⟩ := List.exists_cons_of_ne_nil hc.ne_nil
    cases cs <;> simpa [Text.joinWith, hy] using hx

section
variable (hg : g.Simple)
include hg

theorem head?_piece {c : Tree Term} (hu : Uniform g c) (hd : ∀ a ∈ c.leaves, a.Restorable) {x : Char}
    (hx : x ∈ (piece g c).head?) : Text.isBlank x = false := by
  cases hu with
  | @leaf a ha =>
    subst ha
    rw [piece_leaf] at hx
    have hr := hd a (by simp)
    rcases Term.head?_toText hg.punctuated rfl hr.delimiter hx with hp | hq | hm
    · exact Term.not_isBlank_of_isPlainChar hp
    · exact hg.not_isBlank .quoteOpen hq.symm
    · exact hg.delimiter_unblank _ hm x List.mem_cons_self
  | @group cs _ =>
    obtain ⟨o, _, _, ho, -⟩ := hg.exists_chars
    rw [piece_group, ho, List.singleton_append] at hx
    simp only [List.cons_append, List.head?_cons, Option.mem_def, Option.some.injEq] at hx
    subst hx
    exact hg.not_isBlank .bracketOpen ho

theorem readTokens_piece_leaf {a : Term} (ha : a.grammar = g) (hr : a.Restorable) (hne : a.toText ≠ [])
    (hd : g.Undivided a.toText) (pos : Nat) :
    ∃ token, readTokens g h pos a.toText = .ok [token] ∧ ofToken g h token = .ok (leaf g a) := by
  have hopen : Text.after? g.bracketOpen a.toText = none := by
    obtain ⟨o, ho, hop⟩ : IsSymbol g.bracketOpen := hg.marker .bracketOpen
    rw [Text.after?_eq_none, ho, List.singleton_prefix_iff_head?_eq_some]
    intro hhead
    rcases Term.head?_toText hg.punctuated ha (ha ▸ hr.delimiter) hhead with hp | hq | hm
    · rw [hop] at hp
      contradiction
    · exact hg.bracketOpen_ne_quote.1 (ho.trans hq)
    · exact hg.delimiter_ne_marker _ hm .bracketOpen ho.symm
  refine ⟨⟨.leaf, a.toText, pos, pos + Text.byteSize a.toText⟩, readTokens_of_readToken hne ?_, ?_⟩
  · exact readToken_eq_ok.2 (.inr ⟨hopen, a.toText, scansLeaf_of_undivided h hd, rfl⟩)
  · simp only [ofToken, Term.readAt_toText hg.punctuated h ha hr, Outcome.map_ok, ofTerm, ha]

theorem readTokens_piece_group {cs : List (Tree Term)} (hb : g.Balanced (group g cs).termText)
    (hread : ∀ pos, readAt g h pos (group g cs).termText = .ok (group g cs)) (pos : Nat) :
    ∃ token, readTokens g h pos (piece g (group g cs)) = .ok [token] ∧ ofToken g h token = .ok (group g cs) := by
  obtain ⟨o, c, q, ho, hc, hq, hoc, hoq, hcq⟩ := hg.exists_chars
  have hscan := scansGroup_of_closes ho hc hq hoc hoq hcq [] (hb.closes ho hc)
  have hafter : Text.after? g.bracketOpen (piece g (group g cs)) = some ((group g cs).termText ++ [c]) := by
    rw [piece_group, hc, List.append_assoc, Text.after?_append]
  have hne : piece g (group g cs) ≠ [] := by simp [piece_group, ho]
  exact ⟨_, readTokens_of_readToken hne (readToken_eq_ok.2 (.inl ⟨_, _, hafter, hscan, rfl⟩)), hread _⟩

theorem readTokens_pieces {cs : List (Tree Term)} (hp : ∀ c ∈ cs, ReadsAlone g h c) (pos : Nat) :
    ∃ tokens, readTokens g h pos (Text.joinWith [' '] (cs.map (piece g))) = .ok tokens ∧
      tokens.mapM (ofToken g h) = .ok cs := by
  induction cs generalizing pos with
  | nil => exact ⟨[], by simp [Text.joinWith, readTokens], rfl⟩
  | cons c cs ih =>
    have hc := hp c (by simp)
    obtain ⟨token, htoken, hof⟩ := hc.read pos
    cases cs with
    | nil =>
      refine ⟨[token], htoken, ?_⟩
      rw [Outcome.mapM_cons, hof]
      rfl
    | cons d cs =>
      have hp' : ∀ e ∈ d :: cs, ReadsAlone g h e := fun e he => hp e (List.mem_cons_of_mem c he)
      have hhead := head?_pieces hp'
      generalize htail : Text.joinWith [' '] ((d :: cs).map (piece g)) = tail at ih hhead
      have hsep : ∀ x ∈ (' ' :: tail).head?, isSeparator x = true := by
        simp [isSeparator]
      have hclear : g.ClearOf (' ' :: tail) :=
        Grammar.Unblank.clearOf (fun m => hg.marker_unblank m) fun x hx => isBlank_of_isSeparator (hsep x hx)
      obtain ⟨htake, hdrop⟩ := Text.cut_append (p := isSeparator) (s := [' ']) (by simp [isSeparator])
        fun x hx => isSeparator_of_not_isBlank (hhead x hx)
      have hsplit := readTokens_append hc.ne_nil hclear hsep htoken
      simp only [List.singleton_append] at htake hdrop
      rw [htake, hdrop] at hsplit
      obtain ⟨tokens, htokens, hofs⟩ := ih hp'
        (pos + Text.byteSize (piece g c ++ [' ']))
      refine ⟨token :: tokens, ?_, ?_⟩
      · simp only [List.map_cons, Text.joinWith] at htail ⊢
        rw [htail, List.append_assoc, List.singleton_append, hsplit, htokens]
        rfl
      · rw [Outcome.mapM_cons, hof, hofs]
        rfl

/-- **The text of a legible tree of restorable terms reads as the tree.** -/
theorem readAt_termText (n : Tree Term) (hu : Uniform g n) (hr : ∀ a ∈ n.leaves, a.Restorable) (hl : Legible g n)
    (hs : n.shape = .group) (pos : Nat) : readAt g h pos n.termText = .ok n := by
  induction n using induction generalizing pos with
  | leaf g' a => contradiction
  | group g' cs ih =>
    cases hu with | group hu =>
    cases hl with | group hl hb hlast =>
    have hr' : ∀ c ∈ cs, ∀ a ∈ c.leaves, a.Restorable := fun c hc a ha =>
      hr a (by simpa using ⟨c, hc, ha⟩)
    have halone : ∀ c ∈ cs, ReadsAlone g h c := by
      intro c hc
      have hhead := fun x => head?_piece hg (hu c hc) (hr' c hc) (x := x)
      have huc := hu c hc
      have hlc := hl c hc
      cases c with
      | leaf g' a =>
        cases huc with | leaf ha =>
        cases hlc with | leaf hne hund =>
        refine ⟨by rwa [piece_leaf], hhead, fun pos => ?_⟩
        rw [piece_leaf]
        exact readTokens_piece_leaf hg ha (hr' _ hc a (by simp)) hne hund pos
      | group g' ds =>
        cases huc with | group _ =>
        have hne : piece g (group g ds) ≠ [] := by
          simp [piece_group, hg.punctuated.bracketOpen_ne]
        exact ⟨hne, hhead, readTokens_piece_group hg (hb _ hc rfl) fun pos =>
          ih _ hc (hu _ hc) (hr' _ hc) (hl _ hc) rfl pos⟩
    have htrimmed : Text.Trimmed (group g cs).termText := by
      rw [termText_group] at hlast ⊢
      exact ⟨head?_pieces halone, hlast⟩
    obtain ⟨tokens, htokens, hofs⟩ := readTokens_pieces hg halone pos
    rw [← termText_group] at htokens
    rw [readAt_eq, tokensAt, htrimmed.trim_self.1, htrimmed.trim_self.2, Text.byteSize_nil, Nat.add_zero, htokens]
    show Except.map (group g) _ = _
    rw [hofs]
    rfl

end

end Tree
end TermTree
