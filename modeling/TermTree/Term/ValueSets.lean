/-
The values of a term as sets, one for each delimiter that it uses. The sets are gathered by going through the
parameters once; which pairs of delimiter and value they hold is all there is to them (`ValueSets.eq_iff_holds`),
and these are the parameters of the term (`Term.holds_valueSets`).
-/
import Std.Data.ExtTreeMap
import Std.Data.ExtTreeSet
import TermTree.Term

namespace TermTree

/-- Sets of values by delimiter. A delimiter without values has no set. -/
@[ext]
structure ValueSets where
  sets : Std.ExtTreeMap Text (Std.ExtTreeSet Text)
  ne_empty : ∀ (delimiter : Text) (values : Std.ExtTreeSet Text), sets[delimiter]? = some values → values ≠ ∅

namespace ValueSets

instance : DecidableEq ValueSets := fun s t => decidable_of_iff (s.sets = t.sets) ValueSets.ext_iff.symm

/-- No sets. -/
def empty : ValueSets := ⟨∅, by simp⟩

/-- The sets with the value of one more parameter. -/
def add (s : ValueSets) (p : Parameter) : ValueSets where
  sets := s.sets.alter p.delimiter fun values => some ((values.getD ∅).insert p.value)
  ne_empty := by
    intro delimiter values h
    rw [Std.ExtTreeMap.getElem?_alter] at h
    split at h
    · cases h
      exact Std.ExtTreeSet.insert_ne_empty
    · exact s.ne_empty delimiter values h

/-- Whether each set of `s` is part of the set that `t` has for the same delimiter; if `t` has none it is not. -/
def within (s t : ValueSets) : Bool :=
  s.sets.toList.all fun (delimiter, values) =>
    match t.sets[delimiter]? with
    | none => false
    | some present => values.toList.all present.contains

/-- The value is in the set of the delimiter. -/
def Holds (s : ValueSets) (p : Parameter) : Prop := ∃ values, s.sets[p.delimiter]? = some values ∧ p.value ∈ values

variable {s t : ValueSets} {p q : Parameter}

theorem not_holds_empty : ¬ empty.Holds p := by simp [Holds, empty]

theorem holds_add : (s.add p).Holds q ↔ q = p ∨ s.Holds q := by
  obtain ⟨d, v⟩ := p
  obtain ⟨e, w⟩ := q
  simp only [Holds, add, Std.ExtTreeMap.getElem?_alter, Std.LawfulEqCmp.compare_eq_iff_eq, Parameter.mk.injEq]
  by_cases hd : d = e
  · subst hd
    cases s.sets[d]? <;> simp [@eq_comm _ w v]
  · have he : e ≠ d := fun h => hd h.symm
    simp [hd, he]

theorem exists_holds {delimiter : Text} {values : Std.ExtTreeSet Text} (h : s.sets[delimiter]? = some values) :
    ∃ v ∈ values, s.Holds ⟨delimiter, v⟩ := by
  have hv : ∃ v, v ∈ values := by
    simpa [Std.ExtTreeSet.eq_empty_iff_forall_not_mem] using s.ne_empty delimiter values h
  obtain ⟨v, hv⟩ := hv
  exact ⟨v, hv, values, h, hv⟩

theorem holds_iff_mem {delimiter : Text} {values : Std.ExtTreeSet Text} (h : s.sets[delimiter]? = some values)
    (v : Text) : s.Holds ⟨delimiter, v⟩ ↔ v ∈ values := by
  simp [Holds, h]

theorem within_iff : s.within t = true ↔ ∀ p, s.Holds p → t.Holds p := by
  simp only [within, List.all_eq_true, Prod.forall, Std.ExtTreeMap.mem_toList_iff_getElem?_eq_some]
  constructor
  · rintro h ⟨d, v⟩ ⟨values, hd, hv⟩
    have hin := h d values hd
    split at hin
    · contradiction
    · next present ht =>
      have hall : ∀ w ∈ values, w ∈ present := by simpa using hin
      exact ⟨present, ht, hall v hv⟩
  · intro h d values hd
    -- the set of `s` has a value, so `t` has a set for the delimiter as well
    obtain ⟨v, hv, hs⟩ := exists_holds hd
    obtain ⟨present, ht, -⟩ := h _ hs
    simp only [ht, List.all_eq_true, Std.ExtTreeSet.mem_toList, Std.ExtTreeSet.contains_iff_mem]
    exact fun w hw => (holds_iff_mem ht w).1 (h _ ((holds_iff_mem hd w).2 hw))

theorem getElem?_of_holds (h : ∀ p, s.Holds p ↔ t.Holds p) {delimiter : Text} {values : Std.ExtTreeSet Text}
    (hs : s.sets[delimiter]? = some values) : t.sets[delimiter]? = some values := by
  obtain ⟨v, -, hv⟩ := exists_holds hs
  obtain ⟨present, ht, -⟩ := (h _).1 hv
  have hsame : present = values := by
    ext w
    rw [← holds_iff_mem ht, ← h, holds_iff_mem hs]
  rw [ht, hsame]

/-- The pairs that sets hold are all there is to them. -/
theorem eq_iff_holds : s = t ↔ ∀ p, s.Holds p ↔ t.Holds p := by
  constructor
  · rintro rfl p
    exact Iff.rfl
  · intro h
    refine ValueSets.ext (Std.ExtTreeMap.ext_getElem? fun delimiter => Option.ext fun values => ?_)
    exact ⟨getElem?_of_holds h, getElem?_of_holds fun p => (h p).symm⟩

end ValueSets

namespace Term

/-- The values of a term, gathered by delimiter. -/
def valueSets (a : Term) : ValueSets := a.parameters.foldl ValueSets.add .empty

/-- **The sets of a term hold its parameters and nothing else.** -/
theorem holds_valueSets {a : Term} {p : Parameter} : a.valueSets.Holds p ↔ p ∈ a.parameters := by
  have hfold : ∀ (ps : List Parameter) (s : ValueSets), (ps.foldl ValueSets.add s).Holds p ↔ p ∈ ps ∨ s.Holds p := by
    intro ps
    induction ps with
    | nil => simp
    | cons q ps ih =>
      intro s
      rw [List.foldl_cons, ih, ValueSets.holds_add, List.mem_cons, or_left_comm, or_assoc]
  rw [valueSets, hfold, or_iff_left ValueSets.not_holds_empty]

end Term
end TermTree
