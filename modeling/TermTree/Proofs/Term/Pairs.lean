/-
Lenient comparison. The sets that a term's values are gathered in hold its parameters (`holds_valueSets`), so both ways
of comparing come down to membership in the list of parameters: a term covers another one if it has all its
parameters (`covers_iff`), and two are equivalent if each has those of the other (`equivalent_iff`). The laws of both
are those of inclusion of sets (`compares_pairs`).
-/
import TermTree.Term.Comparison

namespace TermTree.Term
variable {a b c : Term}

theorem identical_iff : a.identical b = true ↔ a.name = b.name ∧ a.parameters = b.parameters := by
  simp [identical]

theorem covers_iff : a.covers b = true ↔ a.name = b.name ∧ ∀ p ∈ b.parameters, p ∈ a.parameters := by
  simp only [covers, Bool.and_eq_true, beq_iff_eq, ValueSets.within_iff, holds_valueSets]

theorem equivalent_iff : a.equivalent b = true ↔ a.name = b.name ∧ ∀ p, p ∈ a.parameters ↔ p ∈ b.parameters := by
  simp only [equivalent, Bool.and_eq_true, beq_iff_eq, decide_eq_true_eq, ValueSets.eq_iff_holds, holds_valueSets]

/-! ## Covering -/

theorem covers_refl (a : Term) : a.covers a = true := covers_iff.2 ⟨rfl, fun _ hp => hp⟩

theorem covers_trans (hab : a.covers b = true) (hbc : b.covers c = true) : a.covers c = true := by
  obtain ⟨hname, hba⟩ := covers_iff.1 hab
  obtain ⟨hname', hcb⟩ := covers_iff.1 hbc
  exact covers_iff.2 ⟨hname.trans hname', fun p hp => hba p (hcb p hp)⟩

/-! ## Equivalence -/

theorem equivalent_iff_covers : a.equivalent b = true ↔ a.covers b = true ∧ b.covers a = true := by
  rw [equivalent_iff, covers_iff, covers_iff]
  constructor
  · rintro ⟨hname, hsame⟩
    exact ⟨⟨hname, fun p => (hsame p).2⟩, hname.symm, fun p => (hsame p).1⟩
  · rintro ⟨⟨hname, hba⟩, -, hab⟩
    exact ⟨hname, fun p => ⟨hab p, hba p⟩⟩

theorem covers_of_equivalent (h : a.equivalent b = true) : a.covers b = true := (equivalent_iff_covers.1 h).1

theorem equivalent_of_identical (h : a.identical b = true) : a.equivalent b = true := by
  obtain ⟨hname, hparams⟩ := identical_iff.1 h
  exact equivalent_iff.2 ⟨hname, fun p => by rw [hparams]⟩

theorem equivalent_equivalence : Equivalence fun a b : Term => a.equivalent b = true where
  refl a := equivalent_iff_covers.2 ⟨covers_refl a, covers_refl a⟩
  symm h := equivalent_iff_covers.2 (equivalent_iff_covers.1 h).symm
  trans hab hbc := by
    obtain ⟨hab, hba⟩ := equivalent_iff_covers.1 hab
    obtain ⟨hbc, hcb⟩ := equivalent_iff_covers.1 hbc
    exact equivalent_iff_covers.2 ⟨covers_trans hab hbc, covers_trans hcb hba⟩

/-- Terms that are equivalent compare alike with every other one. -/
theorem equivalent_congr {a' b' : Term} (ha : a.equivalent a' = true) (hb : b.equivalent b' = true) :
    a.equivalent b = a'.equivalent b' := by
  have hequiv := equivalent_equivalence
  rw [Bool.eq_iff_iff]
  exact ⟨fun h => hequiv.trans (hequiv.symm ha) (hequiv.trans h hb),
    fun h => hequiv.trans ha (hequiv.trans h (hequiv.symm hb))⟩

theorem equivalent_of_same_members {ps : List Parameter} (h : ∀ p, p ∈ ps ↔ p ∈ a.parameters) :
    ({ a with parameters := ps } : Term).equivalent a = true :=
  equivalent_iff.2 ⟨rfl, h⟩

/-- **Terms are compared leniently by their names and their sets of parameters.** One covers another if the names are
equal and it has every parameter of the other; they are equivalent if each covers the other. So covering is reflexive
and transitive, and equivalence is an equivalence, which does not look at the order of the parameters or at how often
one stands there, on either side. Identical terms are equivalent, and equivalent ones cover each other. Nothing is
asked of delimiters or grammars. -/
theorem compares_pairs (a b c : Term) :
    (a.covers b = true ↔ a.name = b.name ∧ ∀ p ∈ b.parameters, p ∈ a.parameters) ∧
    (a.equivalent b = true ↔ a.covers b = true ∧ b.covers a = true) ∧
    a.covers a = true ∧ (a.covers b = true → b.covers c = true → a.covers c = true) ∧
    Equivalence (fun a b : Term => a.equivalent b = true) ∧
    (∀ ps, (∀ p, p ∈ ps ↔ p ∈ a.parameters) →
      ({ a with parameters := ps } : Term).equivalent b = a.equivalent b ∧
      b.equivalent { a with parameters := ps } = b.equivalent a) ∧
    (a.identical b = true → a.equivalent b = true) ∧ (a.equivalent b = true → a.covers b = true) := by
  refine ⟨covers_iff, equivalent_iff_covers, covers_refl a, covers_trans, equivalent_equivalence, fun ps hps => ?_,
    equivalent_of_identical, covers_of_equivalent⟩
  have hsame := equivalent_of_same_members hps
  have hself := equivalent_equivalence.refl b
  exact ⟨equivalent_congr hsame hself, equivalent_congr hself hsame⟩

/-- Parameters in another order, one of them twice and on a delimiter that the grammar does not have; and three terms
of which each covers the next. -/
theorem compares_pairs_repeated :
    (∀ p : Parameter, p ∈ [⟨['#'], ['y']⟩, ⟨['.'], ['x']⟩, ⟨['#'], ['y']⟩] ↔ p ∈ [⟨['.'], ['x']⟩, ⟨['#'], ['y']⟩]) ∧
    Term.equivalent ⟨['n'], [⟨['#'], ['y']⟩, ⟨['.'], ['x']⟩, ⟨['#'], ['y']⟩], {}⟩
      ⟨['n'], [⟨['#'], ['y']⟩, ⟨['.'], ['x']⟩], {}⟩ = true ∧
    Term.covers ⟨['n'], [⟨['.'], ['x']⟩, ⟨['#'], ['y']⟩], {}⟩
      ⟨['n'], [⟨['#'], ['y']⟩, ⟨['.'], ['x']⟩], {}⟩ = true ∧
    Term.covers ⟨['n'], [⟨['#'], ['y']⟩, ⟨['.'], ['x']⟩], {}⟩ ⟨['n'], [⟨['#'], ['y']⟩], {}⟩ = true ∧
    Term.covers ⟨['n'], [⟨['.'], ['x']⟩, ⟨['#'], ['y']⟩], {}⟩ ⟨['n'], [⟨['#'], ['y']⟩], {}⟩ = true := by
  have hmem : ∀ p : Parameter, p ∈ [⟨['#'], ['y']⟩, ⟨['.'], ['x']⟩, ⟨['#'], ['y']⟩] ↔
      p ∈ [⟨['.'], ['x']⟩, ⟨['#'], ['y']⟩] := by
    intro p
    simp only [List.mem_cons, List.not_mem_nil, or_false]
    rw [or_left_comm, or_self]
  obtain ⟨-, -, -, htrans, -, hsame, -, hcovers⟩ := compares_pairs ⟨['n'], [⟨['.'], ['x']⟩, ⟨['#'], ['y']⟩], {}⟩
    ⟨['n'], [⟨['#'], ['y']⟩, ⟨['.'], ['x']⟩], {}⟩ ⟨['n'], [⟨['#'], ['y']⟩], {}⟩
  have hreordered : Term.equivalent ⟨['n'], [⟨['.'], ['x']⟩, ⟨['#'], ['y']⟩], {}⟩
      ⟨['n'], [⟨['#'], ['y']⟩, ⟨['.'], ['x']⟩], {}⟩ = true := by decide
  have hpart : Term.covers ⟨['n'], [⟨['#'], ['y']⟩, ⟨['.'], ['x']⟩], {}⟩ ⟨['n'], [⟨['#'], ['y']⟩], {}⟩ = true := by
    decide
  exact ⟨hmem, (hsame _ hmem).1.trans hreordered, hcovers hreordered, hpart, htrans (hcovers hreordered) hpart⟩

end TermTree.Term
