/-
Joining texts joins trees. Two texts with separators between them read as one group, whose children are
those of the first and then those of the second; a fault of the second is found behind the first
(`readAt_append`). The three ways to put a text and a tree together give the same tree (`read_splice`).
-/
import Mathlib.Algebra.Group.Nat.Defs
import TermTree.Proofs.Grammar.Simple
import TermTree.Proofs.Token.Seam
import TermTree.Proofs.Tree.Drawing
import TermTree.Proofs.Tree.Told

namespace TermTree.Tree
open Token

theorem readAt_eq_ok {g : Grammar} {h : g.Valid} {pos : Nat} {t : Text} {n : Tree Term} :
    readAt g h pos t = .ok n ↔
      ∃ tokens cs, tokensAt g h pos t = .ok tokens ∧ tokens.mapM (ofToken g h) = .ok cs ∧ n = group g cs := by
  rw [readAt_eq]
  cases tokensAt g h pos t with
  | error e => simp [bind, Except.bind]
  | ok tokens =>
    show Except.map (group g) _ = _ ↔ _
    simp only [Outcome.map_eq_ok, Except.ok.injEq]
    constructor
    · rintro ⟨cs, hcs, rfl⟩
      exact ⟨tokens, cs, rfl, hcs, rfl⟩
    · rintro ⟨_, cs, rfl, hcs, rfl⟩
      exact ⟨cs, hcs, rfl⟩

/-- **Behind a text and separators, a text is read as it is by itself, with all positions moved.** -/
theorem readAt_append {g : Grammar} {h : g.Valid} {pos : Nat} {s w t : Text} {n : Tree Term} (hg : g.Unblank)
    (hw : w ≠ []) (hws : ∀ c ∈ w, isSeparator c = true) (hs : ∀ c ∈ Text.trailingBlanks s, isSeparator c = true)
    (ht : ∀ c ∈ Text.leadingBlanks t, isSeparator c = true) (hr : readAt g h pos s = .ok n) :
    readAt g h pos (s ++ w ++ t) =
      (readAt g h (pos + Text.byteSize (s ++ w)) t).map fun m => group g (n.members ++ m.members) := by
  obtain ⟨tokens, cs, htok, hcs, rfl⟩ := readAt_eq_ok.1 hr
  rw [readAt_eq, readAt_eq, tokensAt_append hg hw hws hs ht htok]
  cases tokensAt g h (pos + Text.byteSize (s ++ w)) t with
  | error e => rfl
  | ok tokens' =>
    show Except.map (group g) ((tokens ++ tokens').mapM _) = (Except.map (group g) _).map _
    rw [Outcome.mapM_append tokens' hcs, Outcome.map_map, Outcome.map_map]
    rfl

theorem read_eq_ok {g : Grammar} {t : Text} {n : Tree Term} (h : read g t = .ok n) : n = group g n.members := by
  obtain ⟨_, h⟩ := exists_readAt_of_read h
  obtain ⟨_, cs, -, -, rfl⟩ := readAt_eq_ok.1 h
  rfl

/-! ## The text as an item -/

section
variable {g : Grammar} {s t : Text} {n m : Tree Term}

theorem run_readFresh_group (h : read g t = .ok n) (supply : Supply) :
    ∃ cs supply', (readFresh g t).run.run supply = (.ok (group g cs), supply') ∧ cs.map forget = n.members := by
  obtain ⟨a, supply', ha, rfl⟩ := run_readFresh h supply
  cases a with
  | leaf g' a => simpa using read_eq_ok h
  | group g' cs =>
    obtain ⟨rfl, -⟩ : g' = g ∧ _ := by simpa using read_eq_ok h
    exact ⟨cs, supply', ha, by simp [members]⟩

theorem run_ofItem_text (h : read g t = .ok n) (supply : Supply) :
    ∃ cs supply', (ofItem g (.text t)).run.run supply = (.ok cs, supply') ∧ cs.map forget = n.members := by
  obtain ⟨cs, supply', ha, hcs⟩ := run_readFresh_group h supply
  refine ⟨cs, supply', ?_, hcs⟩
  rw [ofItem, Outcome.run_bind_ok ha]
  rfl

theorem run_ofItems_text (h : read g t = .ok n) (supply : Supply) :
    ∃ cs supply', (ofItems g [.text t]).run.run supply = (.ok cs, supply') ∧ cs.map forget = n.members := by
  obtain ⟨cs, supply', ha, hcs⟩ := run_ofItem_text h supply
  refine ⟨cs, supply', ?_, hcs⟩
  have hall : ([Item.text t].mapM (ofItem g)).run.run supply = (.ok [cs], supply') := by
    rw [List.mapM_cons, Outcome.run_bind_ok ha]
    rfl
  rw [ofItems, Outcome.run_bind_ok hall, Outcome.run_pure, List.flatten_singleton]

theorem terms_append (hs : read g s = .ok n) (ht : read g t = .ok m) (supply : Supply) :
    (readFresh g s >>= append [.text t]).terms supply = .ok (group g (n.members ++ m.members)) := by
  obtain ⟨cs, supply₁, ha, hcs⟩ := run_readFresh_group hs supply
  obtain ⟨ds, supply₂, hb, hds⟩ := run_ofItems_text ht supply₁
  have hrun : (readFresh g s >>= append [.text t]).run.run supply = (.ok (group g (cs ++ ds)), supply₂) := by
    rw [Outcome.run_bind_ok ha, append_eq, grammar, Outcome.run_bind_ok hb]
    rfl
  rw [Drawing.terms_of_run hrun, forget_group, List.map_append, hcs, hds]

theorem terms_prepend (hs : read g s = .ok n) (ht : read g t = .ok m) (supply : Supply) :
    (readFresh g t >>= prepend [.text s]).terms supply = .ok (group g (n.members ++ m.members)) := by
  obtain ⟨ds, supply₁, hb, hds⟩ := run_readFresh_group ht supply
  obtain ⟨cs, supply₂, ha, hcs⟩ := run_ofItems_text hs supply₁
  have hrun : (readFresh g t >>= prepend [.text s]).run.run supply = (.ok (group g (cs ++ ds)), supply₂) := by
    rw [Outcome.run_bind_ok hb, prepend_eq, grammar, Outcome.run_bind_ok ha]
    rfl
  rw [Drawing.terms_of_run hrun, forget_group, List.map_append, hcs, hds]

theorem terms_join (hs : read g s = .ok n) (ht : read g t = .ok m) (supply : Supply) :
    (readFresh g s >>= fun a => join [.tree a, .text t]).terms supply =
      .ok (group g (n.members ++ m.members)) := by
  obtain ⟨cs, supply₁, ha, hcs⟩ := run_readFresh_group hs supply
  obtain ⟨ds, supply₂, hb, hds⟩ := run_readFresh_group ht supply₁
  have hrun : (readFresh g s >>= fun a => join [.tree a, .text t]).run.run supply =
      (.ok (group g (cs ++ ds)), supply₂) := by
    have hgrammar : itemGrammar [.tree (group g cs), .text t] = g := rfl
    simp only [Outcome.run_bind_ok ha, join, hgrammar, List.mapM_cons, List.mapM_nil, pure_bind, bind_assoc,
      Outcome.run_bind_ok hb, Outcome.run_pure, members, List.flatten_cons, List.flatten_nil, List.append_nil]
  rw [Drawing.terms_of_run hrun, forget_group, List.map_append, hcs, hds]

end

/-- **Splicing a text is joining trees.** Behind a text that reads as `n`, and separators, a text that reads
as `m` adds the children of `m` to those of `n`. The same tree comes from putting the second text behind
the first tree, the first text before the second tree, and from joining the first tree and the second text.
A text that has a fault has it there too, as many bytes further back as stand in front of it. -/
theorem read_splice {g : Grammar} (hv : g.Valid) (hg : g.Unblank) {s w t : Text} {n : Tree Term}
    (hsize : Text.byteSize (s ++ w ++ t) < 2 ^ 32) (hs : read g s = .ok n) (hw : w ≠ []) (hws : ∀ c ∈ w, isSeparator c = true)
    (htrail : ∀ c ∈ Text.trailingBlanks s, isSeparator c = true)
    (hlead : ∀ c ∈ Text.leadingBlanks t, isSeparator c = true) :
    (∀ m, read g t = .ok m →
      ∃ u, read g (s ++ w ++ t) = .ok u ∧ u = group g (n.members ++ m.members) ∧
        ∀ supply, (readFresh g s >>= append [.text t]).terms supply = .ok u ∧
          (readFresh g t >>= prepend [.text s]).terms supply = .ok u ∧
          (readFresh g s >>= fun a => join [.tree a, .text t]).terms supply = .ok u) ∧
    ∀ e, read g t = .error e →
      ∃ fault, e = .malformed fault ∧
        read g (s ++ w ++ t) = .error (.malformed (fault.shift (Text.byteSize (s ++ w)))) := by
  have hread := read_eq hv hsize
  rw [Text.byteSize_append] at hsize
  have hsecond : read g t = (readAt g hv 0 t).mapError .malformed := read_eq hv (show _ < 2 ^ 32 by omega)
  obtain ⟨_, hs0⟩ := exists_readAt_of_read hs
  have hwhole := readAt_append hg hw hws htrail hlead hs0
  rw [Nat.zero_add, ← Nat.add_zero (Text.byteSize (s ++ w)), readAt_shift] at hwhole
  constructor
  · intro m hm
    have hm0 := hm
    rw [hsecond, Outcome.mapError_eq_ok] at hm0
    refine ⟨_, ?_, rfl, fun supply => ⟨terms_append hs hm supply, terms_prepend hs hm supply, terms_join hs hm supply⟩⟩
    rw [hread, hwhole, hm0]
    rfl
  · intro e he
    rw [hsecond, Outcome.mapError_eq_error] at he
    obtain ⟨fault, hfault, rfl⟩ := he
    refine ⟨fault, rfl, ?_⟩
    rw [hread, hwhole, hfault]
    rfl

/-- A group behind a term, and a group with a fault inside it. -/
theorem read_splice_group :
    Text.byteSize (['a', ' '] ++ ['\t'] ++ ['\x7b', 'b', '\x7d']) < 2 ^ 32 ∧
    Text.byteSize (['a', ' '] ++ ['\t'] ++ ['\x7b', 'b', ',', 'c', '\x7d']) < 2 ^ 32 ∧
    (∃ u, read {} ['a', ' ', '\t', '\x7b', 'b', '\x7d'] = .ok u ∧
      ∀ supply, (readFresh {} ['a', ' '] >>= append [.text ['\x7b', 'b', '\x7d']]).terms supply = .ok u) ∧
    read {} ['a', ' ', '\t', '\x7b', 'b', ',', 'c', '\x7d'] =
      .error (.malformed (.missingDelimiter 5 ['b', ',', 'c'])) := by
  have hn : read {} ['a', ' '] = .ok (group {} [leaf {} { name := ['a'] }]) := rfl
  have hg : Grammar.Unblank {} := Grammar.simple_default.marker_unblank
  have hseps : ∀ {w : Text}, w.all isSeparator = true → ∀ c ∈ w, isSeparator c = true := List.all_eq_true.1
  have hsize₁ : Text.byteSize (['a', ' '] ++ ['\t'] ++ ['\x7b', 'b', '\x7d']) < 2 ^ 32 := by decide
  have hsize₂ : Text.byteSize (['a', ' '] ++ ['\t'] ++ ['\x7b', 'b', ',', 'c', '\x7d']) < 2 ^ 32 := by decide
  refine ⟨hsize₁, hsize₂, ?_, ?_⟩
  · obtain ⟨u, hu, -, hsupply⟩ := (read_splice Grammar.valid_default hg hsize₁ hn (by decide) (hseps rfl) (hseps rfl) (hseps rfl)).1 _ rfl
    exact ⟨u, hu, fun supply => (hsupply supply).1⟩
  · obtain ⟨fault, hfault, hread⟩ := (read_splice Grammar.valid_default hg hsize₂ hn (by decide) (hseps rfl) (hseps rfl) (hseps rfl)).2 _ rfl
    cases hfault
    exact hread

end TermTree.Tree
