/-
Reading back the text of a tree that was itself read from a text. Such a tree is uniform, and its terms are
restorable (`uniform_of_readAt`), but this does not make its text readable: it is read as the same tree
exactly when it is legible (`readAt_termText_iff`).

That a tree with another text is not read back is shown by walking through its text and the text that was
read as the tree side by side (`eq_of_readTokens`). Both begin with texts of the same term or group; these
are the same texts, so both go on at the same place.
-/
import TermTree.Proofs.Tree.RoundTrip
import TermTree.Proofs.Tree.Splicing

namespace TermTree

theorem Term.eq_of_identical {a b : Term} (hg : a.grammar = b.grammar) (hi : a.identical b = true) : a = b := by
  simp only [identical, Bool.and_eq_true, beq_iff_eq] at hi
  cases a
  cases b
  simp_all

namespace Tree
open Token
variable {g : Grammar} {h : g.Valid}

/-- What is read from a text has the grammar everywhere, and restorable terms. -/
theorem uniform_of_readAt (hg : g.Punctuated) {pos : Nat} {t : Text} {n : Tree Term} (hr : readAt g h pos t = .ok n) :
    Uniform g n ∧ ∀ a ∈ n.leaves, a.Restorable := by
  induction n using induction generalizing pos t with
  | leaf g' a =>
    obtain ⟨_, _, -, -, hn⟩ := readAt_eq_ok.1 hr
    contradiction
  | group g' cs ih =>
    obtain ⟨tokens, _, -, hof, hn⟩ := readAt_eq_ok.1 hr
    cases hn
    have hchild : ∀ c ∈ cs, Uniform g c ∧ ∀ a ∈ c.leaves, a.Restorable := by
      intro c hc
      obtain ⟨token, -, htoken⟩ := Outcome.exists_of_mem_mapM hof hc
      rw [ofToken] at htoken
      split at htoken
      · obtain ⟨a, ha, rfl⟩ := Outcome.map_eq_ok.1 htoken
        obtain ⟨rfl, har⟩ := Term.restorable_of_readAt hg ha
        exact ⟨.leaf rfl, by simpa [ofTerm] using har⟩
      · exact ih c hc htoken
    refine ⟨.group fun c hc => (hchild c hc).1, ?_⟩
    simp only [leaves_group, List.mem_flatMap]
    rintro a ⟨c, hc, ha⟩
    exact (hchild c hc).2 a ha

/-! ## Trees with the same leaves -/

/-- A tree is told by its nesting and by what its leaves carry. -/
theorem eq_of_skeleton {α : Type} {m n : Tree α} (hs : m.skeleton = n.skeleton) (hl : m.leaves = n.leaves) : m = n := by
  induction m using induction generalizing n with
  | leaf g a =>
    cases n with
    | leaf g' b =>
      simp only [skeleton, map_leaf, leaf.injEq, and_true, leaves_leaf, List.cons.injEq] at hs hl
      rw [hs, hl]
    | group => simp [skeleton] at hs
  | group g cs ih =>
    cases n with
    | leaf => simp [skeleton] at hs
    | group g' ds =>
      simp only [skeleton, map_group, group.injEq, leaves_group] at hs hl
      obtain ⟨rfl, hs⟩ := hs
      congr 1
      induction cs generalizing ds with
      | nil =>
        cases ds with
        | nil => rfl
        | cons d ds => simp at hs
      | cons c cs ihs =>
        cases ds with
        | nil => simp at hs
        | cons d ds =>
          simp only [List.map_cons, List.cons.injEq, List.flatMap_cons] at hs hl
          -- trees of the same nesting have as many leaves, so the lists of leaves are cut at the same place
          have hlen : c.leaves.length = d.leaves.length := by
            have := congrArg (fun t => t.leaves.length) hs.1
            simpa using this
          obtain ⟨hc, hcs⟩ := List.append_inj hl hlen
          rw [ih c (by simp) hs.1 hc, ihs (fun e he => ih e (by simp [he])) ds hcs hs.2]

theorem Uniform.grammar_eq {n : Tree Term} (hu : Uniform g n) : ∀ a ∈ n.leaves, a.grammar = g := by
  induction n using induction with
  | leaf g' a =>
    cases hu with | leaf ha =>
    simpa using ha
  | group g' cs ih =>
    cases hu with | group hu =>
    simp only [leaves_group, List.mem_flatMap]
    rintro a ⟨c, hc, ha⟩
    exact ih c hc (hu c hc) a ha

theorem eq_of_identicalLeaves {m n : Tree Term} (hm : Uniform g m) (hn : Uniform g n) (hs : m.skeleton = n.skeleton)
    (hi : identicalLeaves m n = true) : m = n := by
  refine eq_of_skeleton hs ?_
  have hm := hm.grammar_eq
  have hn := hn.grammar_eq
  rw [identicalLeaves] at hi
  generalize m.leaves = as at hm hi
  generalize n.leaves = bs at hn hi
  induction as generalizing bs with
  | nil =>
    cases bs with
    | nil => rfl
    | cons b bs => contradiction
  | cons a as ih =>
    cases bs with
    | nil => contradiction
    | cons b bs =>
      simp only [List.isEqv, Bool.and_eq_true] at hi
      have hab : a = b := Term.eq_of_identical ((hm a (by simp)).trans (hn b (by simp)).symm) hi.1
      rw [hab, ih (fun c hc => hm c (by simp [hc])) bs (fun c hc => hn c (by simp [hc])) hi.2]

/-! ## Two texts side by side -/

theorem isBlank_of_mem_gap (ts : List Text) : ∀ c ∈ if ts = [] then [] else [' '], Text.isBlank c = true := by
  split
  · simp
  · simp
    decide

/-- The text `x` is empty or begins with a closing bracket: what stands behind the inside of a group. -/
def AtClose (g : Grammar) (x : Text) : Prop := ∀ c ∈ x.head?, [c] = g.bracketClose

/-- Where the text of `n` stands, no other text that reads as `n` does, and `n` is legible. -/
def OnlyText (g : Grammar) (h : g.Valid) (n : Tree Term) : Prop :=
  ∀ pos v x x', readAt g h pos v = .ok n → AtClose g x → AtClose g x' → v ++ x = n.termText ++ x' →
    v = n.termText ∧ Legible g n

section
variable (hg : g.Simple)
include hg

theorem AtClose.not_isBlank {x : Text} (hx : AtClose g x) {c : Char} (hc : c ∈ x.head?) : Text.isBlank c = false :=
  hg.not_isBlank .bracketClose (hx c hc).symm

theorem AtClose.head?_ne {x : Text} (hx : AtClose g x) {q : Char} (hq : g.quoteOpen = [q]) : x.head? ≠ some q := by
  intro hhead
  exact hg.bracketClose_ne_quote.1 (by rw [hq, hx q hhead])

/-- Blanks in front of a closing bracket or the end are none. -/
theorem AtClose.eq_nil {w x x' : Text} (hx' : AtClose g x') (hw : ∀ c ∈ w, Text.isBlank c = true)
    (heq : w ++ x = x') : w = [] := by
  cases w with
  | nil => rfl
  | cons c w =>
    subst heq
    have hc := hx'.not_isBlank hg (c := c) (by simp)
    rw [hw c (by simp)] at hc
    contradiction

theorem not_quote_nil_prefix_piece {c : Tree Term} (hu : Uniform g c) (hr : ∀ a ∈ c.leaves, a.Restorable)
    (hne : piece g c ≠ []) (t : Text) : ¬ g.quote [] <+: piece g c ++ t := by
  cases hu with
  | @leaf a ha =>
    rw [piece_leaf] at hne ⊢
    exact Term.not_quote_nil_prefix_toText hg.punctuated ha (hr a (by simp)) hne t
  | @group cs _ =>
    obtain ⟨o, -, q, ho, -, hq, -, hoq, -⟩ := hg.exists_chars
    rw [piece_group, ho, Grammar.quote, hq]
    rintro ⟨u, hu⟩
    simp only [List.append_assoc, List.cons_append, List.nil_append, List.cons.injEq] at hu
    exact hoq hu.1.symm

/-- Behind the blanks at its front the text of a group does not begin with an empty verbatim span. -/
theorem not_quote_nil_prefix_pieces {cs : List (Tree Term)} (hu : ∀ c ∈ cs, Uniform g c)
    (hr : ∀ c ∈ cs, ∀ a ∈ c.leaves, a.Restorable) {x : Text} (hx : AtClose g x) :
    ¬ g.quote [] <+: (Text.joinWith [' '] (cs.map (piece g)) ++ x).dropWhile Text.isBlank := by
  induction cs with
  | nil =>
    obtain ⟨q, hq, -⟩ := hg.punctuated.quoteOpen
    rw [List.map_nil, Text.joinWith, List.nil_append]
    rintro ⟨u, hu⟩
    cases x with
    | nil => simp [Grammar.quote, hq] at hu
    | cons c x =>
      have hc := hx.not_isBlank hg (c := c) (by simp)
      rw [List.dropWhile_cons_of_neg (by simp [hc]), Grammar.quote, hq] at hu
      simp only [List.append_nil, List.cons_append, List.cons.injEq] at hu
      exact hx.head?_ne hg hq (by simp [hu.1])
  | cons c cs ih =>
    have ih := ih (fun d hd => hu d (by simp [hd])) fun d hd => hr d (by simp [hd])
    rw [List.map_cons, Text.joinWith_cons, List.append_assoc]
    by_cases hne : piece g c = []
    · rwa [hne, List.nil_append, List.append_assoc, List.dropWhile_append_of_pos (isBlank_of_mem_gap _)]
    · obtain ⟨y, s, hys⟩ := List.exists_cons_of_ne_nil hne
      have hy := head?_piece hg (hu c (by simp)) (hr c (by simp)) (x := y) (by simp [hys])
      have hno := not_quote_nil_prefix_piece hg (hu c (by simp)) (hr c (by simp)) hne
      rw [hys] at hno ⊢
      rw [List.cons_append, List.dropWhile_cons_of_neg (by simp [hy])]
      exact hno _

/-- Blanks and a term in front of one text are the blanks and the term in front of another, unless the term is
written as nothing and the other text goes on with an empty verbatim span. -/
theorem eq_of_readAt_leaf {a : Term} {pos : Nat} {u blanks sp x y : Text} {q : Char} (hq : g.quoteOpen = [q])
    (ha : Term.readAt g h pos u = .ok a) (hu : u ≠ []) (hb : ∀ c ∈ blanks, Text.isBlank c = true)
    (hsp : ∀ c ∈ sp, Text.isBlank c = true) (hx : x.head? ≠ some q) (hy : y.head? ≠ some q)
    (hspan : ¬ g.quote [] <+: y.dropWhile Text.isBlank) (heq : blanks ++ (u ++ x) = sp ++ (a.toText ++ y)) :
    blanks = sp ∧ u = a.toText ∧ a.toText ≠ [] := by
  have hhead : ∀ c ∈ (u ++ x).head?, Text.isBlank c = false := by
    intro c hc
    refine Term.head?_of_readAt hg ha ?_
    obtain ⟨d, u, rfl⟩ := List.exists_cons_of_ne_nil hu
    exact hc
  obtain ⟨hag, har⟩ := Term.restorable_of_readAt hg.punctuated ha
  have hne : a.toText ≠ [] := by
    -- nothing but an empty span could have been read, and behind its blanks the other text has none
    intro hnil
    have hdrop := (Text.cut_append hb hhead).2
    obtain ⟨hname, hparams⟩ := Term.toText_eq_nil h hag (hag ▸ har.delimiter) hnil
    rw [heq, hnil, List.nil_append, List.dropWhile_append_of_pos hsp,
      Term.eq_quote_nil_of_readAt hname hparams ha hu] at hdrop
    exact hspan ⟨x, hdrop.symm⟩
  have hread : Term.readAt g h pos a.toText = .ok a := Term.readAt_toText hg.punctuated h hag har
  have hhead' : ∀ c ∈ (a.toText ++ y).head?, Text.isBlank c = false := by
    intro c hc
    refine Term.head?_of_readAt hg hread ?_
    obtain ⟨d, s, hs⟩ := List.exists_cons_of_ne_nil hne
    rw [hs] at hc ⊢
    exact hc
  obtain ⟨hblanks, hrest⟩ := Text.cut_inj hb hsp hhead hhead' heq
  exact ⟨hblanks, Term.eq_of_readAt hg.punctuated hq ha hread hx hy hrest, hne⟩

/-- The first token of a text, and the child it stands for, side by side. -/
theorem eq_of_readToken {c : Tree Term} (hP : OnlyText g h c) {token : Token} {pos : Nat}
    {v r blanks sp x y : Text} {q : Char} (hq : g.quoteOpen = [q]) (hr : readToken g h pos v = .ok (token, r))
    (hof : ofToken g h token = .ok c) (hv : v ≠ []) (hsep : ∀ c ∈ v.head?, isSeparator c = false)
    (hb : ∀ c ∈ blanks, Text.isBlank c = true) (hsp : ∀ c ∈ sp, Text.isBlank c = true) (hx : x.head? ≠ some q)
    (hy : y.head? ≠ some q) (hspan : ¬ g.quote [] <+: y.dropWhile Text.isBlank)
    (heq : blanks ++ (v ++ x) = sp ++ (piece g c ++ y)) :
    blanks = sp ∧ v = piece g c ++ r ∧ Legible g c ∧ (c.shape = .group → g.Balanced c.termText) := by
  have hwhole := eq_append_of_readToken hr
  rcases readToken_eq_ok.1 hr with ⟨_, text, -, hs, rfl⟩ | ⟨-, text, hs, rfl⟩
  · -- both texts go on with an opening bracket
    simp only [ofToken] at hof
    obtain ⟨_, cs, -, -, rfl⟩ := readAt_eq_ok.1 hof
    obtain ⟨o, d, q', ho, hd, hq', hod, hoq, hdq⟩ := hg.exists_chars
    have hob := hg.not_isBlank .bracketOpen ho
    simp only [Token.piece, ho, hd] at hwhole
    rw [hwhole, piece_group, ho, hd] at heq
    simp only [List.append_assoc, List.cons_append, List.nil_append] at heq
    obtain ⟨hblanks, hrest⟩ := Text.cut_inj hb hsp (by simpa using hob) (by simpa using hob) heq
    have hclose : ∀ s, AtClose g (d :: s) := by simp [AtClose, hd]
    obtain ⟨rfl, hl⟩ := hP _ _ _ _ hof (hclose _) (hclose _) (List.cons.inj hrest).2
    refine ⟨hblanks, ?_, hl, fun _ => ⟨o, d, ho, hd, closes_of_scansGroup ho hd hq' hod hoq hdq h hs⟩⟩
    rw [hwhole, piece_group, ho, hd]
  · simp only [ofToken] at hof
    obtain ⟨a, ha, rfl⟩ := Outcome.map_eq_ok.1 hof
    simp only [ofTerm, piece_leaf, Token.piece] at heq hwhole ⊢
    have hne : text ≠ [] := by
      rintro rfl
      obtain ⟨c, v, rfl⟩ := List.exists_cons_of_ne_nil hv
      have hscan : scanLeaf g h pos (c :: v) = .ok ([], r) := scanLeaf_eq_ok.2 hs
      have hc := hsep c (by simp)
      rw [isSeparator_of_scanLeaf_nil hscan] at hc
      contradiction
    have hrest : (r ++ x).head? ≠ some q := by
      cases r with
      | nil => exact hx
      | cons c r =>
        have hc := hs.isSeparator_of_mem_head? (c := c) (by simp)
        have hcq := hg.ne_of_isBlank .quoteOpen hq (isBlank_of_isSeparator hc)
        simpa using hcq
    rw [hwhole, List.append_assoc] at heq
    obtain ⟨hblanks, rfl, hne⟩ := eq_of_readAt_leaf hg hq ha hne hb hsp hrest hy hspan heq
    exact ⟨hblanks, hwhole, .leaf hne (undivided_of_scansLeaf h hs), fun hshape => by contradiction⟩

/-- The tokens of a text, and the pieces of the children they stand for, side by side. In front of the first
token stand the blanks `blanks`, and in front of the first piece the blanks `sp` of the writer. -/
theorem eq_of_readTokens {cs : List (Tree Term)} (hP : ∀ c ∈ cs, OnlyText g h c) (hu : ∀ c ∈ cs, Uniform g c)
    (hr : ∀ c ∈ cs, ∀ a ∈ c.leaves, a.Restorable) {tokens : List Token} {pos : Nat} {v blanks sp x x' : Text} {q : Char}
    (hq : g.quoteOpen = [q]) (htok : readTokens g h pos v = .ok tokens) (hof : tokens.mapM (ofToken g h) = .ok cs)
    (hsep : ∀ c ∈ v.head?, isSeparator c = false) (hb : ∀ c ∈ blanks, Text.isBlank c = true)
    (hsp : ∀ c ∈ sp, Text.isBlank c = true) (hnil : cs = [] → sp = []) (hx : x.head? ≠ some q) (hx' : AtClose g x')
    (heq : blanks ++ (v ++ x) = sp ++ (Text.joinWith [' '] (cs.map (piece g)) ++ x')) :
    blanks = sp ∧ v = Text.joinWith [' '] (cs.map (piece g)) ∧
      ∀ c ∈ cs, Legible g c ∧ (c.shape = .group → g.Balanced c.termText) := by
  induction cs generalizing tokens pos v blanks sp with
  | nil =>
    obtain rfl := Outcome.mapM_eq_nil hof
    obtain rfl := readTokens_eq_nil htok
    obtain rfl := hnil rfl
    simp only [List.map_nil, Text.joinWith, List.nil_append] at heq ⊢
    exact ⟨hx'.eq_nil hg hb heq, trivial, by simp⟩
  | cons c cs ih =>
    obtain ⟨token, tokens, rfl, hc, hcs⟩ := Outcome.mapM_eq_cons hof
    obtain ⟨hv, r, pos', hfirst, hothers⟩ := readTokens_eq_cons htok
    have hu' : ∀ d ∈ cs, Uniform g d := fun d hd => hu d (by simp [hd])
    have hr' : ∀ d ∈ cs, ∀ a ∈ d.leaves, a.Restorable := fun d hd => hr d (by simp [hd])
    rw [List.map_cons, Text.joinWith_cons, List.append_assoc, List.append_assoc] at heq
    rw [List.map_cons, Text.joinWith_cons]
    have hgapb := isBlank_of_mem_gap (cs.map (piece g))
    generalize hgap : (if cs.map (piece g) = [] then [] else [' ']) = gap at heq hgapb ⊢
    have hgapnil : cs = [] → gap = [] := by
      rintro rfl
      exact hgap.symm
    have hy : (gap ++ (Text.joinWith [' '] (cs.map (piece g)) ++ x')).head? ≠ some q := by
      cases cs with
      | nil => simpa [← hgap, Text.joinWith] using hx'.head?_ne hg hq
      | cons d cs =>
        have hcq : ' ' ≠ q := hg.ne_of_isBlank .quoteOpen hq (by decide)
        simpa [← hgap] using hcq
    have hspan := not_quote_nil_prefix_pieces hg hu' hr' hx'
    rw [← List.dropWhile_append_of_pos hgapb] at hspan
    obtain ⟨hblanks, hwhole, hlc, hbc⟩ := eq_of_readToken hg (hP c (by simp)) hq hfirst hc hv hsep hb hsp hx hy hspan heq
    -- the token is the piece, so behind both the texts are in step again
    have hparts := List.takeWhile_append_dropWhile (p := isSeparator) (l := r)
    have hrest : r.takeWhile isSeparator ++ (r.dropWhile isSeparator ++ x) =
        gap ++ (Text.joinWith [' '] (cs.map (piece g)) ++ x') := by
      rw [hblanks, hwhole, List.append_right_inj, List.append_assoc, List.append_right_inj] at heq
      rw [← List.append_assoc, hparts, heq]
    have hsep' : ∀ y ∈ (r.dropWhile isSeparator).head?, isSeparator y = false := fun y hy => Text.head?_dropWhile hy
    obtain ⟨htake, hdrop, hchildren⟩ := ih (fun d hd => hP d (by simp [hd])) hu' hr' hothers hcs hsep'
      (fun y hy => isBlank_of_isSeparator (List.all_eq_true.1 List.all_takeWhile y hy)) hgapb hgapnil hrest
    refine ⟨hblanks, ?_, ?_⟩
    · rw [hwhole, ← hparts, htake, hdrop]
    · intro d hd
      rcases List.mem_cons.1 hd with rfl | hd
      · exact ⟨hlc, hbc⟩
      · exact hchildren d hd

/-- A text that is read as a tree, where the text of the tree stands too, is that text. -/
theorem onlyText (n : Tree Term) : OnlyText g h n := by
  induction n using induction with
  | leaf g' a =>
    intro pos v x x' hr
    obtain ⟨_, _, -, -, hn⟩ := readAt_eq_ok.1 hr
    contradiction
  | group g' cs ih =>
    intro pos v x x' hr hx hx' heq
    obtain ⟨hu, hrest⟩ := uniform_of_readAt hg.punctuated hr
    obtain ⟨tokens, _, htok, hof, hn⟩ := readAt_eq_ok.1 hr
    cases hn
    cases hu with | group hu =>
    have hrest : ∀ c ∈ cs, ∀ a ∈ c.leaves, a.Restorable := fun c hc a ha => hrest a (by simpa using ⟨c, hc, ha⟩)
    obtain ⟨q, hq, -⟩ := hg.punctuated.quoteOpen
    have htrim := Text.trimmed_trim v
    have hsep : ∀ c ∈ (Text.trim v).head?, isSeparator c = false := fun c hc =>
      isSeparator_of_not_isBlank (htrim.1 c hc)
    have htrail : ∀ c ∈ Text.trailingBlanks (Text.trimStart v), Text.isBlank c = true := fun _ =>
      Text.isBlank_of_mem_trailingBlanks
    have hparts := Text.leadingBlanks_append_trim_append v
    generalize Text.trailingBlanks (Text.trimStart v) = trail at htrail hparts
    have hxq : (trail ++ x).head? ≠ some q := by
      cases trail with
      | nil => exact hx.head?_ne hg hq
      | cons c trail =>
        have hcq := hg.ne_of_isBlank .quoteOpen hq (htrail c (by simp))
        simpa using hcq
    have hside : Text.leadingBlanks v ++ (Text.trim v ++ (trail ++ x)) = [] ++ ((group g cs).termText ++ x') := by
      rw [List.nil_append, ← heq]
      conv => rhs; rw [← hparts]
      simp only [List.append_assoc]
    rw [termText_group] at hside ⊢
    obtain ⟨hlead, hbody, hchildren⟩ := eq_of_readTokens hg ih hu hrest hq htok hof hsep
      (fun _ => Text.isBlank_of_mem_leadingBlanks) (by simp) (fun _ => rfl) hxq hx' hside
    rw [hlead, hbody, List.nil_append, List.nil_append, List.append_right_inj] at hside
    rw [hlead, hx'.eq_nil hg htrail hside, List.nil_append, List.append_nil] at hparts
    refine ⟨hparts.symm.trans hbody, .group (fun c hc => (hchildren c hc).1) (fun c hc => (hchildren c hc).2) ?_⟩
    rw [termText_group, ← hbody]
    exact htrim.2

/-- **A tree that was read from a text is read back from its own text exactly when it is legible.** -/
theorem readAt_termText_iff {pos : Nat} {t : Text} {n : Tree Term} (hr : readAt g h pos t = .ok n) :
    readAt g h 0 n.termText = .ok n ↔ Legible g n := by
  obtain ⟨hu, har⟩ := uniform_of_readAt hg.punctuated hr
  constructor
  · intro hn
    exact (onlyText hg n 0 n.termText [] [] hn (by simp [AtClose]) (by simp [AtClose]) rfl).2
  · intro hl
    obtain ⟨_, cs, -, -, rfl⟩ := readAt_eq_ok.1 hr
    exact readAt_termText hg _ hu har hl rfl 0

theorem exists_read_termText_iff {t : Text} {n : Tree Term} (hr : read g t = .ok n)
    (hsize : Text.byteSize n.termText < 2 ^ 32) :
    (∃ m, read g n.termText = .ok m ∧ m.skeleton = n.skeleton ∧ identicalLeaves m n = true) ↔ Legible g n := by
  obtain ⟨hv, hn⟩ := exists_readAt_of_read hr
  rw [← readAt_termText_iff hg hn, read_eq hv hsize]
  constructor
  · rintro ⟨m, hm, hs, hi⟩
    rw [Outcome.mapError_eq_ok] at hm
    obtain rfl := eq_of_identicalLeaves (uniform_of_readAt hg.punctuated hm).1 (uniform_of_readAt hg.punctuated hn).1 hs hi
    exact hm
  · intro hm
    exact ⟨n, Outcome.mapError_eq_ok.2 hm, rfl, identicalLeaves_self n⟩

end

/-- **In the default grammar a tree that was read from a text is read back from its own text, nested in the same
way and with the same terms, exactly when it is legible**, if each place of its text has an offset; writing it again then
gives the same text. -/
theorem read_termText_iff_legible {t : Text} {n : Tree Term} (hr : read {} t = .ok n)
    (hsize : Text.byteSize n.termText < 2 ^ 32) :
    ((∃ m, read {} n.termText = .ok m ∧ m.skeleton = n.skeleton ∧ identicalLeaves m n = true) ↔ Legible {} n) ∧
      (Legible {} n → ∃ m, read {} n.termText = .ok m ∧ m.termText = n.termText) := by
  have hiff := exists_read_termText_iff Grammar.simple_default hr hsize
  refine ⟨hiff, fun hl => ?_⟩
  obtain ⟨hv, hn⟩ := exists_readAt_of_read hr
  refine ⟨n, ?_, rfl⟩
  rw [read_eq hv hsize, (readAt_termText_iff Grammar.simple_default hn).2 hl, Outcome.mapError_ok]

/-- A value that holds a bracket is quoted when it is written; the tree is read back. -/
theorem read_termText_bracket_in_value :
    Text.byteSize (termText (group {} [leaf {} ⟨['a'], [⟨['.'], ['x', '\x7b']⟩], {}⟩])) < 2 ^ 32 ∧
    read {} ['a', '.', 'x', '\x7b'] = .ok (group {} [leaf {} ⟨['a'], [⟨['.'], ['x', '\x7b']⟩], {}⟩]) ∧
    Legible {} (group {} [leaf {} ⟨['a'], [⟨['.'], ['x', '\x7b']⟩], {}⟩]) := by
  have hn : read {} ['a', '.', 'x', '\x7b'] = .ok (group {} [leaf {} ⟨['a'], [⟨['.'], ['x', '\x7b']⟩], {}⟩]) := rfl
  have hw : termText (group {} [leaf {} ⟨['a'], [⟨['.'], ['x', '\x7b']⟩], {}⟩]) =
      ['a', '.', '\x60', 'x', '\x7b', '\x60'] := by
    simp [termText, textWith]
    decide
  have hsize : Text.byteSize (termText (group {} [leaf {} ⟨['a'], [⟨['.'], ['x', '\x7b']⟩], {}⟩])) < 2 ^ 32 := by
    rw [hw]
    decide
  refine ⟨hsize, hn, (read_termText_iff_legible hn hsize).1.1 ⟨_, ?_, rfl, identicalLeaves_self _⟩⟩
  rw [hw]
  rfl

/-- A value that holds one quote stays bare. Quoting the next value, which holds a space, then pairs the quotes
in another way, and the text of the tree is not read. -/
theorem not_read_termText_requoted :
    ∃ n, read {} ['a', '.', 'x', '\x60', 'y', '.', 'p', ' ', 'q', '.', 'z', '\x60'] = .ok n ∧
      read {} n.termText = .error (.malformed (.unterminatedQuote 6)) := by
  refine ⟨group {} [leaf {} ⟨['a'], [⟨['.'], ['x', '\x60', 'y']⟩, ⟨['.'], ['p', ' ', 'q']⟩, ⟨['.'], ['z', '\x60']⟩], {}⟩],
    rfl, ?_⟩
  have hw : termText (group {} [leaf {} ⟨['a'],
        [⟨['.'], ['x', '\x60', 'y']⟩, ⟨['.'], ['p', ' ', 'q']⟩, ⟨['.'], ['z', '\x60']⟩], {}⟩]) =
      ['a', '.', 'x', '\x60', 'y', '.', '\x60', 'p', ' ', 'q', '\x60', '.', 'z', '\x60'] := by
    simp [termText, textWith]
    decide
  rw [hw]
  rfl

end Tree
end TermTree
