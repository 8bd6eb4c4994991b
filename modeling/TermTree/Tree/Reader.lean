/-
Reading a tree from a text. A text is read as a group: each token of a term becomes a leaf, and
each bracketed token is read as a text of its own. The inside of a token is shorter than the text
that it stands in (`Token.length_lt_of_mem_tokensFrom`), so reading ends.

What a leaf is made of is left open, as it may take an identity: the tokens of a group are all found before the first
term in it is read, and each term is made as soon as it is read, so those in front of a fault are made as well.
-/
import TermTree.Drawing
import TermTree.Token
import TermTree.Tree

namespace TermTree

namespace Token
variable {g : Grammar} {h : g.Valid} {base pos : Nat} {t : Text} {token : Token} {tokens : List Token}

/-- Only the offsets are told anew. -/
theorem kind_text_of_told {told : Token} (hr : token.told base = .ok told) :
    told.kind = token.kind ∧ told.text = token.text := by
  obtain ⟨_, -, he⟩ := Outcome.bind_eq_ok.1 hr
  cases he
  exact ⟨rfl, rfl⟩

/-- A token of a text that is read without its outer blanks is no longer than the text, and the
inside of a group is shorter. -/
theorem length_lt_of_mem_toldTokens (hr : toldTokens g h base pos t = .ok tokens) (hm : token ∈ tokens)
    (hk : token.kind = .group) : token.text.length < t.length := by
  fun_induction toldTokens g h base pos t generalizing tokens with
  | case1 =>
    simp only [Except.ok.injEq] at hr
    simp [← hr] at hm
  | case2 => simp at hr
  | case3 pos c t' first hf ih =>
    obtain ⟨told, htold, hr⟩ := Outcome.bind_eq_ok.1 hr
    obtain ⟨others, ho, he⟩ := Outcome.bind_eq_ok.1 hr
    cases he
    rcases List.mem_cons.1 hm with rfl | hm
    · obtain ⟨hkind, htext⟩ := kind_text_of_told htold
      rw [htext, eq_append_of_readToken hf]
      have := List.length_pos_iff.2 h.bracketOpen_ne
      simp only [piece, ← hkind, hk, List.length_append]
      omega
    · exact Nat.lt_trans (ih ho hm) (length_lt_of_readToken hf)

theorem length_lt_of_mem_tokensFrom (hr : tokensFrom g h base t = .ok tokens) (hm : token ∈ tokens)
    (hk : token.kind = .group) : token.text.length < t.length := by
  obtain ⟨_, -, hr⟩ := Outcome.bind_eq_ok.1 hr
  exact Nat.lt_of_lt_of_le (length_lt_of_mem_toldTokens hr hm hk) (Text.length_trim_le t)

end Token

namespace Tree

section
variable {α : Type} {m : Type → Type} [Monad m] [MonadExceptOf Error m]

/-- Reads the text `t` that stands at the offset `base` as a group, with the leaves that `make` makes. -/
@[semireducible]
def readFrom (make : Term → m (Tree α)) (g : Grammar) (h : g.Valid) (base : Nat) (t : Text) : m (Tree α) :=
  match _ : Token.tokensFrom g h base t with
  | .error e => throw e
  | .ok tokens =>
    group g <$> tokens.attach.mapM fun (token : { token // token ∈ tokens }) =>
      match _ : token.val.kind with
      | .leaf => do make (← MonadExcept.ofExcept (Term.readFrom g h token.val.start token.val.text))
      | .group => readFrom make g h token.val.start token.val.text
termination_by t.length
decreasing_by exact Token.length_lt_of_mem_tokensFrom ‹_› token.property ‹_›

/-- Reads what one token stands for. -/
def ofToldToken (make : Term → m (Tree α)) (g : Grammar) (h : g.Valid) (token : Token) : m (Tree α) :=
  match token.kind with
  | .leaf => do make (← MonadExcept.ofExcept (Term.readFrom g h token.start token.text))
  | .group => readFrom make g h token.start token.text

theorem readFrom_eq [LawfulMonad m] (make : Term → m (Tree α)) (g : Grammar) (h : g.Valid) (base : Nat) (t : Text) :
    readFrom make g h base t =
      match Token.tokensFrom g h base t with
      | .error e => throw e
      | .ok tokens => group g <$> tokens.mapM (ofToldToken make g h) := by
  unfold readFrom
  split
  · next e he => rw [he]
  · next tokens ht =>
    simp only [ht]
    congr 1
    conv => rhs; rw [← List.attach_map_subtype_val tokens]
    rw [List.mapM_map]
    congr 1
    funext ⟨token, hm⟩
    simp only [Function.comp_apply, ofToldToken]
    split <;> split <;> simp_all

end

/-- Reads a tree from a text. The root is always a group. -/
def read (g : Grammar) (t : Text) : Except Error (Tree Term) :=
  g.reading fun h => readFrom (fun a => pure (ofTerm a)) g h 0 t

/-- Reads a text as a single leaf: neither blanks nor brackets are looked at. -/
def readLeaf (g : Grammar) (t : Text) : Except Error (Tree Term) :=
  (Term.read g t).map ofTerm

/-- Reads a tree from a text, with fresh identities. -/
def readFresh (g : Grammar) (t : Text) : Drawing (Tree Occurrence) :=
  g.reading fun h => readFrom (fun a => do return ofOccurrence (← Occurrence.fresh a)) g h 0 t

/-- Reads a single leaf from a text, with a fresh identity. -/
def readLeafFresh (g : Grammar) (t : Text) : Drawing (Tree Occurrence) := do
  return ofOccurrence (← Occurrence.read g t)

end Tree
end TermTree
