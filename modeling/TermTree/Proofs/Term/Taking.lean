/-
Taking parameters out of a term. Taking the first matching one either finds none, or takes it out from between two
parts of the list, the first of which holds no match (`eq_append_of_takeFirst`). So to take the first one again and
again comes to an end, and to the same as taking all at once; it is also the same as changing every matching value
to no values at all (`takeAll_taken`).
-/
import TermTree.Proofs.Term.Rewriting

namespace TermTree.Term
variable {pattern : Pattern} {delimiter value : Text} {values : List Text} {a b c : Term}

/-- Taking out the first match of `a` again and again gives the values, in this order; then there is none in `b`,
which is what is left. -/
inductive Taken (pattern : Pattern) (delimiter : Text) : Term → List Text → Term → Prop where
  | none {a b : Term} : a.takeFirst pattern delimiter = (none, b) → Taken pattern delimiter a [] b
  | next {a b c : Term} {value : Text} {values : List Text} : a.takeFirst pattern delimiter = (some value, b) →
      Taken pattern delimiter b values c → Taken pattern delimiter a (value :: values) c

/-! ## One match -/

theorem forall_of_takeFirst (h : a.takeFirst pattern delimiter = (none, b)) :
    b = a ∧ ∀ p ∈ a.parameters, matching pattern delimiter p = false := by
  rw [takeFirst] at h
  split at h
  · next hfind =>
    cases h
    exact ⟨rfl, by simpa using hfind⟩
  · cases h

theorem eq_append_of_takeFirst (h : a.takeFirst pattern delimiter = (some value, b)) :
    ∃ before after, a.parameters = before ++ ⟨delimiter, value⟩ :: after ∧
      (∀ p ∈ before, matching pattern delimiter p = false) ∧ pattern.isMatch value = true ∧
      b = { a with parameters := before ++ after } := by
  rw [takeFirst] at h
  split at h
  · cases h
  · next p hfind =>
    cases h
    obtain ⟨hp, before, after, hparams, hbefore⟩ := List.find?_eq_some_iff_append.1 hfind
    obtain ⟨rfl, hmatch⟩ := matching_iff.1 hp
    have hnone : ∀ q ∈ before, ¬ matching pattern p.delimiter q = true := by simpa using hbefore
    refine ⟨before, after, hparams, by simpa using hnone, hmatch, ?_⟩
    rw [hparams, List.eraseP_append_right _ hnone, List.eraseP_cons_of_pos hp]

/-! ## All matches -/

theorem filter_matching_eq_nil {ps : List Parameter} (h : ∀ p ∈ ps, matching pattern delimiter p = false) :
    ps.filter (matching pattern delimiter) = [] :=
  List.filter_eq_nil_iff.2 fun p hp => by simp [h p hp]

theorem takeAll_eq (pattern : Pattern) (delimiter : Text) (a : Term) :
    a.takeAll pattern delimiter = (a.matchingValues pattern delimiter,
      { a with parameters := a.parameters.filter fun p => !matching pattern delimiter p }) := by
  rw [takeAll, List.partition_eq_filter_filter, ← map_value_filter_matching]
  rfl

theorem takeAll_of_takeFirst_none (h : a.takeFirst pattern delimiter = (none, b)) :
    a.takeAll pattern delimiter = ([], b) := by
  obtain ⟨rfl, hnone⟩ := forall_of_takeFirst h
  have hkept : b.parameters.filter (fun p => !matching pattern delimiter p) = b.parameters :=
    List.filter_eq_self.2 fun p hp => by simp [hnone p hp]
  rw [takeAll_eq, ← map_value_filter_matching, filter_matching_eq_nil hnone, hkept]
  rfl

theorem takeAll_of_takeFirst_some (h : a.takeFirst pattern delimiter = (some value, b)) :
    a.takeAll pattern delimiter =
      (value :: (b.takeAll pattern delimiter).1, (b.takeAll pattern delimiter).2) := by
  obtain ⟨before, after, hparams, hbefore, hmatch, rfl⟩ := eq_append_of_takeFirst h
  have hvalue : matching pattern delimiter ⟨delimiter, value⟩ = true := matching_iff.2 ⟨rfl, hmatch⟩
  simp only [takeAll_eq, ← map_value_filter_matching, hparams, List.filter_append, filter_matching_eq_nil hbefore,
    List.nil_append, List.filter_cons_of_pos hvalue, List.map_cons, List.filter_cons, hvalue, Bool.not_true,
    Bool.false_eq_true, if_false]

theorem takeAll_of_taken (h : Taken pattern delimiter a values c) : a.takeAll pattern delimiter = (values, c) := by
  induction h with
  | none hfirst => exact takeAll_of_takeFirst_none hfirst
  | next hfirst _ ih => rw [takeAll_of_takeFirst_some hfirst, ih]

/-- Taking out one match after another comes to an end: each time there is a parameter less. -/
theorem exists_taken (pattern : Pattern) (delimiter : Text) (a : Term) :
    ∃ values c, Taken pattern delimiter a values c := by
  induction hn : a.parameters.length using Nat.strongRecOn generalizing a with
  | ind n ih =>
    match hfirst : a.takeFirst pattern delimiter with
    | (none, b) => exact ⟨[], b, .none hfirst⟩
    | (some value, b) =>
      obtain ⟨before, after, hparams, -, -, rfl⟩ := eq_append_of_takeFirst hfirst
      have hlt : (before ++ after).length < n := by
        rw [← hn, hparams, List.length_append, List.length_append, List.length_cons]
        omega
      obtain ⟨values, c, htaken⟩ := ih _ hlt { a with parameters := before ++ after } rfl
      exact ⟨value :: values, c, .next hfirst htaken⟩

theorem taken_iff : Taken pattern delimiter a values c ↔ a.takeAll pattern delimiter = (values, c) := by
  refine ⟨takeAll_of_taken, fun h => ?_⟩
  obtain ⟨values', c', htaken⟩ := exists_taken pattern delimiter a
  rw [takeAll_of_taken htaken] at h
  cases h
  exact htaken

/-! ## Other ways to take parameters out -/

/-- Where every reply is no value at all, the matching parameters go. -/
theorem Rewritten.eq_filter {ps qs : List Parameter} {replies : List Replacement}
    (h : Rewritten pattern delimiter ps replies qs) (hreplies : ∀ r ∈ replies, r = .many []) :
    qs = ps.filter fun p => !matching pattern delimiter p := by
  induction h with
  | nil => rfl
  | stays hp _ ih => rw [List.filter_cons_of_pos (by rw [not_matching_iff.2 hp]; rfl), ← ih hreplies]
  | one =>
    have := hreplies _ List.mem_cons_self
    contradiction
  | many hmatch _ ih =>
    cases hreplies _ List.mem_cons_self
    rw [List.filter_cons_of_neg (by simp [matching, hmatch])]
    exact ih fun r hr => hreplies r (List.mem_cons_of_mem _ hr)

theorem changeValues_many_nil (pattern : Pattern) (delimiter : Text) (a : Term) :
    a.changeValues pattern (.fixed (.many [])) delimiter = (a.takeAll pattern delimiter).2 := by
  have hrewrites := rewritesTo_changeValues pattern (.fixed (.many [])) delimiter a
  have hkept := hrewrites.parameters.eq_filter fun r hr => by
    obtain ⟨_, -, rfl⟩ := List.mem_map.1 hr
    rfl
  rw [takeAll_eq]
  exact hrewrites.eq_of_parameters hkept

section
variable {m : Type → Type} [Monad m]

/-- The first value of all that match is handed on, if there is one. -/
theorem handFirst_eq (pattern : Pattern) (delimiter : Text) (f : Text → m Unit) (a : Term) :
    a.handFirst pattern delimiter f =
      match (a.takeAll pattern delimiter).1 with
      | [] => pure a
      | value :: _ => do
        f value
        return (a.takeFirst pattern delimiter).2 := by
  rw [handFirst]
  split
  · next b hfirst =>
    obtain ⟨rfl, -⟩ := forall_of_takeFirst hfirst
    rw [takeAll_of_takeFirst_none hfirst]
  · next value b hfirst =>
    rw [takeAll_of_takeFirst_some hfirst, hfirst]

end

/-- **To take matching parameters out one by one is to take all of them out at once.** Taking the first one out again
and again ends with the values and the term that taking all gives, and with nothing else. The values are those on the
delimiter that match, in their order; the parameters that are left are the others, in theirs, and so they are when
every matching value is changed to no values. To hand on the first value runs the function once, on the first of all
values taken, and not at all if there is none. -/
theorem takeAll_taken (pattern : Pattern) (delimiter : Text) (a : Term) :
    (∀ values b, Taken pattern delimiter a values b ↔ a.takeAll pattern delimiter = (values, b)) ∧
    (a.takeAll pattern delimiter).1 = (a.valuesOn delimiter).filter pattern.isMatch ∧
    (a.takeAll pattern delimiter).2 = { a with
      parameters := a.parameters.filter fun p => !(p.delimiter = delimiter && pattern.isMatch p.value) } ∧
    a.changeValues pattern (.fixed (.many [])) delimiter = (a.takeAll pattern delimiter).2 ∧
    ∀ (m : Type → Type) [Monad m] (f : Text → m Unit), a.handFirst pattern delimiter f =
      match (a.takeAll pattern delimiter).1 with
      | [] => pure a
      | value :: _ => do
        f value
        return (a.takeFirst pattern delimiter).2 := by
  refine ⟨fun values b => taken_iff, ?_, ?_, changeValues_many_nil pattern delimiter a,
    fun m _ f => handFirst_eq pattern delimiter f a⟩
  · rw [takeAll_eq]
    rfl
  · rw [takeAll_eq]
    rfl

/-- Matches stand between other values and other delimiters, and one of them is empty. -/
example : Term.takeAll (.literal []) ['.'] ⟨['n'], [⟨['.'], ['x']⟩, ⟨['.'], []⟩, ⟨[':'], []⟩, ⟨['.'], []⟩], {}⟩ =
    ([[], []], ⟨['n'], [⟨['.'], ['x']⟩, ⟨[':'], []⟩], {}⟩) := rfl

end TermTree.Term
