/-
Reading a tree where each thing in the text is known by its place. Offsets are told only of tokens and faults, so the
tree is the one that `Tree.readFrom` reads, where that has the offsets to tell.
-/
import TermTree.Proofs.Token.Exact
import TermTree.Tree.Reader

namespace TermTree.Tree

/-- Reads the text `t` that stands at the place `pos` as a group. -/
@[semireducible]
def readAt (g : Grammar) (h : g.Valid) (pos : Nat) (t : Text) : Except Malformed (Tree Term) :=
  match _ : Token.tokensAt g h pos t with
  | .error e => .error e
  | .ok tokens =>
    Except.map (group g) <| tokens.attach.mapM fun (token : { token // token ∈ tokens }) =>
      match _ : token.val.kind with
      | .leaf => (Term.readAt g h token.val.start token.val.text).map ofTerm
      | .group => readAt g h token.val.start token.val.text
termination_by t.length
decreasing_by exact Token.length_lt_of_mem_tokensAt ‹_› token.property ‹_›

/-- Reads what one token stands for. -/
def ofToken (g : Grammar) (h : g.Valid) (token : Token) : Except Malformed (Tree Term) :=
  match token.kind with
  | .leaf => (Term.readAt g h token.start token.text).map ofTerm
  | .group => readAt g h token.start token.text

theorem readAt_eq (g : Grammar) (h : g.Valid) (pos : Nat) (t : Text) :
    readAt g h pos t = (do
      let tokens ← Token.tokensAt g h pos t
      let children ← tokens.mapM (ofToken g h)
      return group g children) := by
  unfold readAt
  split
  · next e he => rw [he]; rfl
  · next tokens ht =>
    rw [ht]
    show Except.map _ _ = Except.map (group g) (tokens.mapM (ofToken g h))
    congr 1
    conv => rhs; rw [← List.attach_map_subtype_val tokens]
    rw [List.mapM_map]
    congr 1
    funext ⟨token, hm⟩
    simp only [Function.comp_apply, ofToken]
    split <;> split <;> simp_all

end TermTree.Tree
