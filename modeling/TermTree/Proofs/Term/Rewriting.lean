/-
Changing the values of a term. A change is asked once for each value on the delimiter that the pattern matches, in the
order of the parameters, and its replies are written where the values stood (`Rewritten`). What is asked for is settled
by the term as it was, so no value that a reply brings is matched again. The rest of the term stays
(`changeValues_rewrites`).
-/
import TermTree.Term.Command

namespace TermTree

/-! ## One value -/

/-- What becomes of a text when its first match is replaced by a new text. -/
inductive Pattern.Substitutes : Pattern → Text → Text → Text → Prop where
  /-- A literal matches the whole text, and the new text comes in its place as it is. -/
  | literal (t new : Text) : Substitutes (.literal t) t new new
  /-- Of a text in which something is found only the leftmost match goes, and what the new text stands for there
  comes in its place. -/
  | regex {m : Matcher} {before covered behind new : Text} {groups : List (Nat × Text)} :
      m.find? (before ++ covered ++ behind) = some ⟨before, covered, behind, groups⟩ →
      Substitutes (.regex m) (before ++ covered ++ behind) new
        (before ++ m.expand ⟨before, covered, behind, groups⟩ new ++ behind)

theorem Pattern.substitutes_substitute {pattern : Pattern} {t : Text} (h : pattern.isMatch t = true) (new : Text) :
    pattern.Substitutes t new (pattern.substitute t new) := by
  cases pattern with
  | literal l =>
    obtain rfl : t = l := beq_iff_eq.1 h
    rw [substitute, Text.replaceFirst_self]
    exact .literal t new
  | regex m =>
    obtain ⟨⟨before, covered, behind, groups⟩, hfound⟩ := Option.isSome_iff_exists.1 h
    obtain rfl : t = before ++ covered ++ behind := m.eq_append t _ hfound
    rw [substitute, Matcher.replaceFirst, hfound]
    exact .regex hfound

namespace Term

/-! ## A list of parameters -/

/-- `qs` are the parameters `ps` with the replies written where values match: the first reply where the first value
does, and so on. A single text is substituted in the value, several texts become as many parameters on the delimiter,
and every other parameter is as it was. -/
inductive Rewritten (pattern : Pattern) (delimiter : Text) :
    List Parameter → List Replacement → List Parameter → Prop where
  | nil : Rewritten pattern delimiter [] [] []
  | stays {p : Parameter} {ps qs : List Parameter} {replies : List Replacement} :
      (p.delimiter = delimiter → pattern.isMatch p.value = false) → Rewritten pattern delimiter ps replies qs →
      Rewritten pattern delimiter (p :: ps) replies (p :: qs)
  | one {value new value' : Text} {ps qs : List Parameter} {replies : List Replacement} :
      pattern.isMatch value = true → pattern.Substitutes value new value' →
      Rewritten pattern delimiter ps replies qs →
      Rewritten pattern delimiter (⟨delimiter, value⟩ :: ps) (.one new :: replies) (⟨delimiter, value'⟩ :: qs)
  | many {value : Text} {values : List Text} {ps qs : List Parameter} {replies : List Replacement} :
      pattern.isMatch value = true → Rewritten pattern delimiter ps replies qs →
      Rewritten pattern delimiter (⟨delimiter, value⟩ :: ps) (.many values :: replies)
        (values.map (⟨delimiter, ·⟩) ++ qs)

section
variable {pattern : Pattern} {delimiter : Text} {p : Parameter} {ps qs : List Parameter} {replies : List Replacement}

theorem matching_iff : matching pattern delimiter p = true ↔ p.delimiter = delimiter ∧ pattern.isMatch p.value = true := by
  simp [matching]

theorem not_matching_iff :
    matching pattern delimiter p = false ↔ (p.delimiter = delimiter → pattern.isMatch p.value = false) := by
  simp [matching]

namespace Rewritten

theorem replied (h : Rewritten pattern delimiter ps replies qs) (hp : matching pattern delimiter p = true)
    (reply : Replacement) :
    Rewritten pattern delimiter (p :: ps) (reply :: replies) (changedTo pattern p reply ++ qs) := by
  obtain ⟨rfl, hmatch⟩ := matching_iff.1 hp
  cases reply with
  | one new => exact .one hmatch (Pattern.substitutes_substitute hmatch new) h
  | many values => exact .many hmatch h

theorem sublist (h : Rewritten pattern delimiter ps replies qs) :
    (ps.filter fun p => !matching pattern delimiter p).Sublist qs := by
  induction h with
  | nil => exact .slnil
  | stays hp _ ih =>
    rw [List.filter_cons_of_pos (by rw [not_matching_iff.2 hp]; rfl)]
    exact ih.cons_cons _
  | one hmatch _ _ ih =>
    rw [List.filter_cons_of_neg (by simp [matching, hmatch])]
    exact ih.cons _
  | many hmatch _ ih =>
    rw [List.filter_cons_of_neg (by simp [matching, hmatch])]
    exact ih.trans (List.sublist_append_right _ _)

/-- On another delimiter everything is as it was. -/
theorem filter_eq (h : Rewritten pattern delimiter ps replies qs) {d : Text} (hd : d ≠ delimiter) :
    qs.filter (·.delimiter = d) = ps.filter (·.delimiter = d) := by
  induction h with
  | nil => rfl
  | stays _ _ ih => rw [List.filter_cons, List.filter_cons, ih]
  | one _ _ _ ih =>
    rw [List.filter_cons_of_neg (by simpa using hd.symm), List.filter_cons_of_neg (by simpa using hd.symm), ih]
  | many _ _ ih =>
    rw [List.filter_append, List.filter_cons_of_neg (by simpa using hd.symm), ih]
    simp [List.filter_map, Function.comp_def, hd.symm]

end Rewritten

/-- One after another the matching values are asked for, and the replies are written in their places. -/
theorem rewritten_run_mapM (pattern : Pattern) (delimiter : Text) {σ : Type} (f : Text → StateM σ Replacement)
    (ps : List Parameter) (s : σ) :
    Rewritten pattern delimiter ps
      ((((ps.filter (matching pattern delimiter)).map (·.value)).mapM f).run s).1
      ((ps.mapM fun p =>
        if matching pattern delimiter p then changedTo pattern p <$> f p.value else pure [p]).run s).1.flatten ∧
    ((ps.mapM fun p =>
        if matching pattern delimiter p then changedTo pattern p <$> f p.value else pure [p]).run s).2 =
      ((((ps.filter (matching pattern delimiter)).map (·.value)).mapM f).run s).2 := by
  induction ps generalizing s with
  | nil => exact ⟨.nil, rfl⟩
  | cons p ps ih =>
    rw [List.mapM_cons]
    by_cases hp : matching pattern delimiter p = true
    · obtain ⟨hps, hstate⟩ := ih ((f p.value).run s).2
      rw [List.filter_cons_of_pos hp, List.map_cons, List.mapM_cons, if_pos hp]
      exact ⟨hps.replied hp _, hstate⟩
    · obtain ⟨hps, hstate⟩ := ih s
      rw [List.filter_cons_of_neg hp, if_neg hp]
      exact ⟨.stays (not_matching_iff.1 (by simpa using hp)) hps, hstate⟩

end

/-! ## A term -/

/-- The values that a change is asked for. -/
def matchingValues (pattern : Pattern) (delimiter : Text) (a : Term) : List Text :=
  (a.valuesOn delimiter).filter pattern.isMatch

/-- `b` is the term `a` with the replies written where values match, and with nothing else changed. -/
structure RewritesTo (pattern : Pattern) (delimiter : Text) (replies : List Replacement) (a b : Term) : Prop where
  name_eq : b.name = a.name
  grammar_eq : b.grammar = a.grammar
  parameters : Rewritten pattern delimiter a.parameters replies b.parameters

section
variable {pattern : Pattern} {delimiter : Text} {a b : Term}

theorem map_value_filter_matching (pattern : Pattern) (delimiter : Text) (a : Term) :
    (a.parameters.filter (matching pattern delimiter)).map (·.value) = a.matchingValues pattern delimiter := by
  rw [matchingValues, valuesOn, List.filter_map, List.filter_filter]
  congr 2
  funext p
  exact Bool.and_comm _ _

theorem rewritesTo_run_changeValuesM (pattern : Pattern) (delimiter : Text) {σ : Type}
    (f : Text → StateM σ Replacement) (a : Term) (s : σ) :
    RewritesTo pattern delimiter (((a.matchingValues pattern delimiter).mapM f).run s).1 a
      ((a.changeValuesM pattern f delimiter).run s).1 ∧
    ((a.changeValuesM pattern f delimiter).run s).2 = (((a.matchingValues pattern delimiter).mapM f).run s).2 := by
  obtain ⟨hparams, hstate⟩ := rewritten_run_mapM pattern delimiter f a.parameters s
  rw [map_value_filter_matching] at hparams hstate
  exact ⟨⟨rfl, rfl, hparams⟩, hstate⟩

/-- What a change replies for values, one after another: a fixed one always the same, a computed one what its function
gives for the values before and the value itself. -/
def repliesOf : ValueChange → List Text → List Replacement
  | .fixed r, values => values.map fun _ => r
  | .computed f, values => values.mapIdx fun i value => f (values.take i) value

theorem run_mapM_fixed (r : Replacement) (values earlier : List Text) :
    ((values.mapM (nextReplacement (.fixed r))).run earlier).1 = values.map fun _ => r := by
  induction values generalizing earlier with
  | nil => rfl
  | cons value values ih =>
    rw [List.mapM_cons, List.map_cons, ← ih (earlier ++ [value])]
    rfl

/-- Each value is handed on together with the values that were handed on before it. -/
theorem run_mapM_computed (f : List Text → Text → Replacement) (values earlier : List Text) :
    ((values.mapM (nextReplacement (.computed f))).run earlier).1 =
      values.mapIdx fun i value => f (earlier ++ values.take i) value := by
  induction values generalizing earlier with
  | nil => rfl
  | cons value values ih =>
    rw [List.mapM_cons, List.mapIdx_cons]
    have htail := ih (earlier ++ [value])
    simp only [List.append_assoc, List.singleton_append] at htail
    simp only [List.take_zero, List.append_nil, List.take_succ_cons, ← htail]
    rfl

theorem rewritesTo_changeValues (pattern : Pattern) (change : ValueChange) (delimiter : Text) (a : Term) :
    RewritesTo pattern delimiter (repliesOf change (a.matchingValues pattern delimiter)) a
      (a.changeValues pattern change delimiter) := by
  have hrun := (rewritesTo_run_changeValuesM pattern delimiter (nextReplacement change) a []).1
  cases change with
  | fixed r => rwa [run_mapM_fixed] at hrun
  | computed f =>
    rw [run_mapM_computed] at hrun
    simp only [List.nil_append] at hrun
    exact hrun

theorem RewritesTo.eq_of_parameters {replies : List Replacement} {ps : List Parameter}
    (h : RewritesTo pattern delimiter replies a b) (hps : b.parameters = ps) : b = { a with parameters := ps } := by
  obtain ⟨hname, hgrammar, -⟩ := h
  cases b
  cases hname
  cases hgrammar
  cases hps
  rfl

theorem RewritesTo.valuesOn_eq {replies : List Replacement} (h : RewritesTo pattern delimiter replies a b) {d : Text}
    (hd : d ≠ delimiter) : b.valuesOn d = a.valuesOn d := by
  rw [valuesOn, valuesOn, h.parameters.filter_eq hd]

end

/-- **Changing the values of a term writes the replies where values match, and changes nothing else.** A function
with a state of its own is run once for each value on the delimiter that the pattern matches, in the order of the
parameters, and on no other value; what it gives for a value takes the place of that value's parameter. A change that is
fixed replies the same for each of these values, and one that is computed what its function gives for the earlier ones
and the value. Parameters that are not asked for stay in their order, the values on every other delimiter are as they
were, and so are the name, the grammar and the identity. -/
theorem changeValues_rewrites (o : Occurrence) (pattern : Pattern) (delimiter : Text) :
    (∀ (σ : Type) (f : Text → StateM σ Replacement) (s : σ), ∃ b,
      (o.edit fun o => o.term.changeValuesM pattern f delimiter).run s =
        (⟨o.id, b⟩, (((o.term.matchingValues pattern delimiter).mapM f).run s).2) ∧
      RewritesTo pattern delimiter (((o.term.matchingValues pattern delimiter).mapM f).run s).1 o.term b) ∧
    (∀ (r : Replacement) (s : Supply), ∃ b,
      (Command.changeValues pattern (.fixed r) delimiter).run.run.run ⟨o, s⟩ = (.ok .done, ⟨⟨o.id, b⟩, s⟩) ∧
      RewritesTo pattern delimiter ((o.term.matchingValues pattern delimiter).map fun _ => r) o.term b) ∧
    (∀ (f : List Text → Text → Replacement) (s : Supply), ∃ b,
      (Command.changeValues pattern (.computed f) delimiter).run.run.run ⟨o, s⟩ = (.ok .done, ⟨⟨o.id, b⟩, s⟩) ∧
      RewritesTo pattern delimiter
        ((o.term.matchingValues pattern delimiter).mapIdx fun i value =>
          f ((o.term.matchingValues pattern delimiter).take i) value) o.term b) ∧
    ∀ replies b, RewritesTo pattern delimiter replies o.term b →
      (o.term.parameters.filter fun p => !matching pattern delimiter p).Sublist b.parameters ∧
      ∀ d, d ≠ delimiter → b.valuesOn d = o.term.valuesOn d := by
  refine ⟨fun σ f s => ?_, fun r s => ⟨_, rfl, rewritesTo_changeValues pattern (.fixed r) delimiter o.term⟩,
    fun f s => ⟨_, rfl, rewritesTo_changeValues pattern (.computed f) delimiter o.term⟩,
    fun replies b h => ⟨h.parameters.sublist, fun d => h.valuesOn_eq⟩⟩
  obtain ⟨hrewrites, hstate⟩ := rewritesTo_run_changeValuesM pattern delimiter f o.term s
  exact ⟨_, Prod.ext rfl hstate, hrewrites⟩

/-- The empty literal, with a reply that is always the same, and with one that looks back: the first empty value gets a
text, the second one becomes two values. One of these is empty again, and stays. -/
theorem changeValues_rewrites_empty :
    (Command.changeValues (.literal []) (.fixed (.one ['z'])) ['.']).run.run.run
        ⟨⟨0, ['n'], [⟨['.'], []⟩, ⟨[':'], []⟩, ⟨['.'], ['y']⟩, ⟨['.'], []⟩], {}⟩, {}⟩ =
      (.ok .done, ⟨⟨0, ['n'], [⟨['.'], ['z']⟩, ⟨[':'], []⟩, ⟨['.'], ['y']⟩, ⟨['.'], ['z']⟩], {}⟩, {}⟩) ∧
    RewritesTo (.literal []) ['.'] [.one ['z'], .one ['z']]
      ⟨['n'], [⟨['.'], []⟩, ⟨[':'], []⟩, ⟨['.'], ['y']⟩, ⟨['.'], []⟩], {}⟩
      ⟨['n'], [⟨['.'], ['z']⟩, ⟨[':'], []⟩, ⟨['.'], ['y']⟩, ⟨['.'], ['z']⟩], {}⟩ ∧
    RewritesTo (.literal []) ['.'] [.one ['z'], .many [['p'], []]]
      ⟨['n'], [⟨['.'], []⟩, ⟨[':'], []⟩, ⟨['.'], ['y']⟩, ⟨['.'], []⟩], {}⟩
      ⟨['n'], [⟨['.'], ['z']⟩, ⟨[':'], []⟩, ⟨['.'], ['y']⟩, ⟨['.'], ['p']⟩, ⟨['.'], []⟩], {}⟩ ∧
    [':'] ≠ ['.'] ∧
    Term.valuesOn ⟨['n'], [⟨['.'], ['z']⟩, ⟨[':'], []⟩, ⟨['.'], ['y']⟩, ⟨['.'], ['p']⟩, ⟨['.'], []⟩], {}⟩ [':'] =
      Term.valuesOn ⟨['n'], [⟨['.'], []⟩, ⟨[':'], []⟩, ⟨['.'], ['y']⟩, ⟨['.'], []⟩], {}⟩ [':'] := by
  obtain ⟨-, hfixed, hcomputed, hrest⟩ := changeValues_rewrites
    ⟨0, ['n'], [⟨['.'], []⟩, ⟨[':'], []⟩, ⟨['.'], ['y']⟩, ⟨['.'], []⟩], {}⟩ (.literal []) ['.']
  obtain ⟨_, hrun, hsame⟩ := hfixed (.one ['z']) {}
  obtain ⟨_, hrun', hother⟩ := hcomputed (fun earlier _ => if earlier.isEmpty then .one ['z'] else .many [['p'], []]) {}
  cases hrun
  cases hrun'
  exact ⟨rfl, hsame, hother, by decide, (hrest _ _ hother).2 [':'] (by decide)⟩

end Term
end TermTree
