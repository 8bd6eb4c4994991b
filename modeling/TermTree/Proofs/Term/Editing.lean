/-
Runs of edits on a term. A term that was read has its parameters on delimiters of its grammar, and each edit keeps
it so: it takes parameters out, changes values where they stand, or adds a parameter once the delimiter is found in
the grammar (`Configured`, one lemma for each edit). Edits are made in place, and what they have changed when they fail
stays changed. But each asks before it changes anything, so it is all or nothing (`allOrNothing_of_isEdit`), and it fails
for one of two reasons only, none of which depends on the term any more (`Refused`). So nothing that is done to a term
that was read takes it out of its grammar (`runAll_of_read`).

Adding a parameter to the list directly (`Command.append`) is no edit in this sense: it asks nothing.
-/
import TermTree.Proofs.Editing
import TermTree.Proofs.Term.RoundTrip
import TermTree.Term.Command

namespace TermTree

namespace Term

/-- The term is written in the grammar `g`, and its parameters are on delimiters of `g`. -/
structure Configured (g : Grammar) (a : Term) : Prop where
  grammar : a.grammar = g
  delimiter : ∀ p ∈ a.parameters, p.delimiter ∈ g.delimiters

variable {g : Grammar} {a b : Term} {pattern : Pattern} {delimiter : Text}

theorem configured_of_read {t : Text} (hr : read g t = .ok a) : a.Configured g := by
  obtain ⟨h, hr⟩ := read_eq_ok.1 hr
  rw [readAt] at hr
  split at hr
  · contradiction
  · obtain ⟨ps, hps, rfl⟩ := Outcome.map_eq_ok.1 hr
    exact ⟨rfl, fun p hp => (mem_of_readParameters hps p hp).1⟩

namespace Configured

theorem of_delimiters (h : a.Configured g) (hg : b.grammar = a.grammar)
    (hd : ∀ p ∈ b.parameters, ∃ q ∈ a.parameters, q.delimiter = p.delimiter) : b.Configured g := by
  refine ⟨hg.trans h.grammar, fun p hp => ?_⟩
  obtain ⟨q, hq, hqp⟩ := hd p hp
  exact hqp ▸ h.delimiter q hq

/-! ## The name -/

theorem setName (h : a.Configured g) (name : Text) : (a.setName name).Configured g := ⟨h.grammar, h.delimiter⟩

theorem setNameIfEmpty (h : a.Configured g) (name : Text) : (a.setNameIfEmpty name).2.Configured g := by
  rw [Term.setNameIfEmpty]
  split
  · exact h.setName name
  · exact h

theorem rename (h : a.Configured g) (pattern : Pattern) (change : NameChange) :
    (a.rename pattern change).2.Configured g := by
  rw [Term.rename]
  split
  · exact h.setName _
  · exact h

theorem renameByRules (h : a.Configured g) (rules : List (Pattern × NameChange)) :
    (a.renameByRules rules).2.Configured g := by
  induction rules generalizing a with
  | nil => exact h
  | cons rule rules ih =>
    obtain ⟨pattern, change⟩ := rule
    have hstep := h.rename pattern change
    rw [Term.renameByRules]
    split
    · next b hb =>
      rw [hb] at hstep
      exact hstep
    · next b hb =>
      rw [hb] at hstep
      exact ih hstep

/-! ## Parameters -/

theorem append (h : a.Configured g) {p : Parameter} (hp : p.delimiter ∈ g.delimiters) :
    Configured g { a with parameters := a.parameters ++ [p] } := by
  refine ⟨h.grammar, fun q hq => ?_⟩
  rcases List.mem_append.1 hq with hq | hq
  · exact h.delimiter q hq
  · obtain rfl := List.mem_singleton.1 hq
    exact hp

/-- Whatever is added, a grammar that has its delimiter is the term's own. -/
theorem of_hasDelimiter {value : Text} (h : a.Configured g) (hd : a.grammar.hasDelimiter delimiter = true) :
    Configured g { a with parameters := a.parameters ++ [⟨delimiter, value⟩] } := by
  rw [Grammar.hasDelimiter_iff, h.grammar] at hd
  exact h.append hd

theorem takeFirst (h : a.Configured g) (pattern : Pattern) (delimiter : Text) :
    (a.takeFirst pattern delimiter).2.Configured g := by
  rw [Term.takeFirst]
  split
  · exact h
  · exact h.of_delimiters rfl fun p hp => ⟨p, List.mem_of_mem_eraseP hp, rfl⟩

theorem takeAll (h : a.Configured g) (pattern : Pattern) (delimiter : Text) :
    (a.takeAll pattern delimiter).2.Configured g := by
  refine h.of_delimiters rfl fun p hp => ⟨p, ?_, rfl⟩
  rw [Term.takeAll, List.partition_eq_filter_filter] at hp
  exact List.mem_of_mem_filter hp

theorem handFirst {σ : Type} (h : a.Configured g) (pattern : Pattern) (delimiter : Text) (f : Text → StateM σ Unit)
    (s : σ) : ((a.handFirst pattern delimiter f).run s).1.Configured g := by
  have hstep := h.takeFirst pattern delimiter
  rw [Term.handFirst]
  split
  · next b hb =>
    rw [hb] at hstep
    exact hstep
  · next value b hb =>
    rw [hb] at hstep
    exact hstep

end Configured

/-- Each result of a stateful function on a list comes from a member, in some state. -/
theorem exists_of_mem_mapM_run {α β σ : Type} {f : α → StateM σ β} {as : List α} {s : σ} {b : β}
    (hb : b ∈ ((as.mapM f).run s).1) : ∃ a ∈ as, ∃ s', b = ((f a).run s').1 := by
  induction as generalizing s with
  | nil => contradiction
  | cons a as ih =>
    rw [List.mapM_cons] at hb
    rcases List.mem_cons.1 hb with rfl | hb
    · exact ⟨a, List.mem_cons_self, s, rfl⟩
    · obtain ⟨c, hc, s', rfl⟩ := ih hb
      exact ⟨c, List.mem_cons_of_mem a hc, s', rfl⟩

theorem delimiter_of_mem_changedTo {p q : Parameter} {r : Replacement} (hp : p ∈ changedTo pattern q r) :
    p.delimiter = q.delimiter := by
  cases r with
  | one new =>
    obtain rfl := List.mem_singleton.1 hp
    rfl
  | many ts =>
    obtain ⟨t, -, rfl⟩ := List.mem_map.1 hp
    rfl

theorem Configured.changeValuesM {σ : Type} (h : a.Configured g) (pattern : Pattern) (f : Text → StateM σ Replacement)
    (delimiter : Text) (s : σ) : ((a.changeValuesM pattern f delimiter).run s).1.Configured g := by
  refine h.of_delimiters rfl fun p hp => ?_
  obtain ⟨ps, hps, hp⟩ := List.mem_flatten.1 hp
  obtain ⟨q, hq, s', rfl⟩ := exists_of_mem_mapM_run hps
  refine ⟨q, hq, ?_⟩
  split at hp
  · exact (delimiter_of_mem_changedTo hp).symm
  · obtain rfl : p = q := List.mem_singleton.1 hp
    rfl

theorem Configured.with (h : a.Configured g) (hb : b.Configured g) :
    Configured g { a with name := b.name, parameters := b.parameters } := ⟨h.grammar, hb.delimiter⟩

end Term

/-! ## Edits in place -/

namespace Occurrence
open TermTree.Editing TermTree.Term

/-- What an edit makes of an occurrence: the same occurrence, of a term that is configured if it was. -/
structure EditedTo (a b : Occurrence) : Prop where
  id : b.id = a.id
  configured : ∀ g, a.term.Configured g → b.term.Configured g

variable {a : Occurrence} {g : Grammar} {t value delimiter : Text} {s s' : Supply}

theorem EditedTo.refl (a : Occurrence) : EditedTo a a := ⟨rfl, fun _ h => h⟩

theorem read_of_run (hr : (read g t).run.run s = (.ok a, s')) : Term.read g t = .ok a.term := by
  rw [Occurrence.read] at hr
  cases ht : Term.read g t with
  | error e =>
    rw [ht] at hr
    cases hr
  | ok b =>
    rw [ht] at hr
    cases hr
    rfl

theorem run_read_eq_error {e : Error} : ((read g t).run.run s).1 = .error e ↔ Term.read g t = .error e := by
  rw [read]
  cases Term.read g t with
  | error e' => rw [Outcome.run_bind_error (Drawing.run_ofResult _ s), Except.error.injEq, Except.error.injEq]
  | ok b => exact ⟨nofun, nofun⟩

theorem allOrNothing_change {α : Type} {R : Occurrence → Occurrence → Prop} {f : Term → α × Term}
    (hf : ∀ a : Occurrence, R a { a with term := (f a.term).2 }) : AllOrNothing R (change f) where
  ok s _ _ hr := by
    cases hr
    exact hf s.value
  error _ _ _ hr := by cases hr

theorem allOrNothing_add : AllOrNothing EditedTo (add value delimiter) := by
  refine .held_bind fun a => ?_
  split
  · next hd =>
    refine .put fun b hb => ?_
    subst hb
    exact ⟨rfl, fun g h => h.of_hasDelimiter hd⟩
  · exact .throw _

theorem allOrNothing_addIfAbsent : AllOrNothing EditedTo (addIfAbsent value delimiter) := by
  refine .held_bind fun a => ?_
  split
  · exact .pure (fun b _ => .refl b) _
  · exact (allOrNothing_add.bind_pure _).mono fun b c h _ => h

theorem allOrNothing_reread : AllOrNothing EditedTo (reread t) := by
  refine .held_bind fun a => .drawing_bind fun s new s' hr => .put fun b hb => ?_
  subst hb
  refine ⟨rfl, fun g h => h.with ?_⟩
  have hread := read_of_run hr
  rw [h.grammar] at hread
  exact configured_of_read hread

end Occurrence

namespace Command
open TermTree.Editing TermTree.Occurrence

/-- The commands that change a term by its own rules. -/
def isEdit : Command → Bool
  | setName .. | setNameIfEmpty .. | add .. | addIfAbsent .. | rename .. | renameByRules .. | takeFirst ..
  | takeAll .. | handFirst .. | changeValues .. | reread .. => true
  | _ => false

/-- Why an edit of a term in the grammar `g` fails. -/
inductive Refused (g : Grammar) : Command → Error → Prop where
  /-- The grammar does not have the delimiter. -/
  | add {value delimiter : Text} : delimiter ∉ g.delimiters →
      Refused g (add value delimiter) (.unknownDelimiter delimiter)
  | addIfAbsent {value delimiter : Text} : delimiter ∉ g.delimiters →
      Refused g (addIfAbsent value delimiter) (.unknownDelimiter delimiter)
  /-- The text cannot be read. -/
  | reread {t : Text} {e : Error} : Term.read g t = .error e → Refused g (reread t) e

variable {g : Grammar} {e : Error} {s : Held Occurrence}

/-! ## One command -/

/-- **An edit is all or nothing**, and keeps the occurrence and its term in order. -/
theorem allOrNothing_of_isEdit {c : Command} (hc : c.isEdit = true) : AllOrNothing EditedTo c.run := by
  have hchange {α : Type} {f : Term → α × Term} (hf : ∀ (a : Term) (g : Grammar), a.Configured g → (f a).2.Configured g) :
      AllOrNothing EditedTo (change f) := allOrNothing_change fun a => ⟨rfl, hf a.term⟩
  cases c with rw [run]
  | setName name => exact hchange fun a g h => h.setName name
  | setNameIfEmpty name => exact (hchange fun a g h => h.setNameIfEmpty name).bind_pure _
  | add value delimiter => exact allOrNothing_add.bind_pure _
  | addIfAbsent value delimiter => exact allOrNothing_addIfAbsent.bind_pure _
  | rename pattern change => exact (hchange fun a g h => h.rename pattern change).bind_pure _
  | renameByRules rules => exact (hchange fun a g h => h.renameByRules rules).bind_pure _
  | takeFirst pattern delimiter => exact (hchange fun a g h => h.takeFirst pattern delimiter).bind_pure _
  | takeAll pattern delimiter => exact (hchange fun a g h => h.takeAll pattern delimiter).bind_pure _
  | handFirst pattern delimiter => exact hchange fun a g h => h.handFirst pattern delimiter _ none
  | changeValues pattern change delimiter =>
    exact hchange fun a g h => h.changeValuesM pattern (Term.nextReplacement change) delimiter []
  | reread t => exact allOrNothing_reread.bind_pure _
  | _ => contradiction

theorem allOrNothing_run (c : Command) : AllOrNothing (fun a b => b.id = a.id) c.run := by
  cases hc : c.isEdit with
  | true => exact (allOrNothing_of_isEdit hc).mono fun _ _ h => h.id
  | false =>
    cases c with rw [run]
    | append | reverse | clear => exact allOrNothing_change fun a => rfl
    | name | text | parameters | valuesOn | equivalent | identical | covers =>
      exact .held_bind fun a => .pure (fun _ _ => rfl) _
    | onlyValue => exact .held_bind fun a => .ofResult_bind fun _ => .pure (fun _ _ => rfl) _
    | equivalentToText | coversText =>
      exact .held_bind fun a => .drawing_bind fun _ _ _ _ => .pure (fun _ _ => rfl) _
    | _ => contradiction

theorem run_bind_pure_eq_error {α β : Type} {k : α → β} {d : Editing Occurrence α} :
    ((d >>= fun x => pure (k x)).run.run s).1 = .error e ↔ (d.run.run s).1 = .error e := by
  cases hd : d.run.run s with
  | mk r s' =>
    cases r with
    | error e' => rw [Outcome.run_bind_error hd, Except.error.injEq, Except.error.injEq]
    | ok x =>
      rw [Outcome.run_bind_ok hd]
      exact ⟨nofun, nofun⟩

theorem run_add_eq_error (h : s.value.term.Configured g) {value delimiter : Text} :
    ((Occurrence.add value delimiter).run.run s).1 = .error e ↔
      delimiter ∉ g.delimiters ∧ .unknownDelimiter delimiter = e := by
  rw [Occurrence.add, Outcome.run_bind_ok (run_held s), ← h.grammar, ← Grammar.hasDelimiter_iff]
  split
  · next hd => exact ⟨nofun, fun hno => absurd hd hno.1⟩
  · next hd => exact ⟨fun hr => ⟨hd, Except.error.inj hr⟩, fun hno => congrArg Except.error hno.2⟩

/-- A parameter that is already there is on a delimiter of the grammar. -/
theorem run_addIfAbsent_eq_error (h : s.value.term.Configured g) {value delimiter : Text} :
    ((Occurrence.addIfAbsent value delimiter).run.run s).1 = .error e ↔
      delimiter ∉ g.delimiters ∧ .unknownDelimiter delimiter = e := by
  rw [Occurrence.addIfAbsent, Outcome.run_bind_ok (run_held s)]
  split
  · next hmem => exact ⟨nofun, fun hno => absurd (h.delimiter _ hmem) hno.1⟩
  · rw [← run_add_eq_error h]
    exact run_bind_pure_eq_error

theorem run_reread_eq_error (h : s.value.term.Configured g) {t : Text} :
    ((Occurrence.reread t).run.run s).1 = .error e ↔ Term.read g t = .error e := by
  rw [Occurrence.reread, Outcome.run_bind_ok (run_held s), h.grammar, ← run_read_eq_error (s := s.supply)]
  have hdrawn := run_drawing (Occurrence.read g t) s
  cases hread : ((Occurrence.read g t).run.run s.supply).1 with
  | error e' =>
    rw [hread] at hdrawn
    rw [Outcome.run_bind_error hdrawn, Except.error.injEq, Except.error.injEq]
  | ok new =>
    rw [hread] at hdrawn
    rw [Outcome.run_bind_ok hdrawn]
    exact ⟨nofun, nofun⟩

/-- On a term that is configured an edit fails exactly when it is refused. -/
theorem run_eq_error_iff {c : Command} (h : s.value.term.Configured g) (hc : c.isEdit = true) :
    (c.run.run.run s).1 = .error e ↔ Refused g c e := by
  constructor
  · intro hr
    cases c with rw [run] at hr
    | add value delimiter =>
      obtain ⟨hd, rfl⟩ := (run_add_eq_error h).1 (run_bind_pure_eq_error.1 hr)
      exact .add hd
    | addIfAbsent value delimiter =>
      obtain ⟨hd, rfl⟩ := (run_addIfAbsent_eq_error h).1 (run_bind_pure_eq_error.1 hr)
      exact .addIfAbsent hd
    | reread t => exact .reread ((run_reread_eq_error h).1 (run_bind_pure_eq_error.1 hr))
    | setName | changeValues | handFirst => contradiction
    | setNameIfEmpty | rename | renameByRules | takeFirst | takeAll =>
      have hno := run_bind_pure_eq_error.1 hr
      contradiction
    | _ => contradiction
  · intro hr
    cases hr with
    | add hd => exact run_bind_pure_eq_error.2 ((run_add_eq_error h).2 ⟨hd, rfl⟩)
    | addIfAbsent hd => exact run_bind_pure_eq_error.2 ((run_addIfAbsent_eq_error h).2 ⟨hd, rfl⟩)
    | reread hread => exact run_bind_pure_eq_error.2 ((run_reread_eq_error h).2 hread)

/-! ## Runs of commands -/

theorem runAll_cons (c : Command) (cs : List Command) (s : Held Occurrence) :
    (runAll (c :: cs)).run s =
      ((c.run.run.run s).1 :: ((runAll cs).run (c.run.run.run s).2).1, ((runAll cs).run (c.run.run.run s).2).2) := by
  rw [runAll, List.mapM_cons]
  rfl

/-- The last command of a run finds the occurrence that the others left. -/
theorem runAll_concat (cs : List Command) (c : Command) (s : Held Occurrence) :
    (runAll (cs ++ [c])).run s =
      (((runAll cs).run s).1 ++ [(c.run.run.run ((runAll cs).run s).2).1], (c.run.run.run ((runAll cs).run s).2).2) := by
  induction cs generalizing s with
  | nil => exact runAll_cons c [] s
  | cons d cs ih => rw [List.cons_append, runAll_cons, ih, runAll_cons, List.cons_append]

theorem editedTo_run {c : Command} (hc : c.isEdit = true) (s : Held Occurrence) :
    EditedTo s.value (c.run.run.run s).2.value := by
  have hall := allOrNothing_of_isEdit hc
  cases hr : c.run.run.run s with
  | mk r s' =>
    cases r with
    | error e =>
      rw [hall.error s e s' hr]
      exact .refl _
    | ok answer => exact hall.ok s answer s' hr

theorem editedTo_runAll {cs : List Command} (hcs : ∀ c ∈ cs, c.isEdit = true) (s : Held Occurrence) :
    EditedTo s.value ((runAll cs).run s).2.value := by
  induction cs generalizing s with
  | nil => exact .refl _
  | cons c cs ih =>
    have hfirst := editedTo_run (hcs c List.mem_cons_self) s
    have hrest := ih (fun d hd => hcs d (List.mem_cons_of_mem c hd)) (c.run.run.run s).2
    rw [runAll_cons]
    exact ⟨hrest.id.trans hfirst.id, fun g h => hrest.configured g (hfirst.configured g h)⟩

/-- **Edits never take a term out of its grammar.** After any run of edits on a term that was read, it is still the same
occurrence, written in the grammar that it was read with, and its parameters are on delimiters of that grammar. One
more edit then fails exactly when it is refused: for a delimiter that the grammar does not have, or a text that it cannot
read. It then leaves the occurrence as it was. -/
theorem runAll_of_read {g : Grammar} {t : Text} {a : Occurrence} {supply supply' : Supply}
    (hr : (Occurrence.read g t).run.run supply = (.ok a, supply')) {cs : List Command}
    (hcs : ∀ c ∈ cs, c.isEdit = true) :
    ∃ answers s, (runAll cs).run ⟨a, supply'⟩ = (answers, s) ∧ s.value.id = a.id ∧ s.value.term.Configured g ∧
      ∀ c, c.isEdit = true → ∀ e,
        ((∃ s', (runAll (cs ++ [c])).run ⟨a, supply'⟩ = (answers ++ [.error e], s')) ↔ Refused g c e) ∧
        ∀ s', (runAll (cs ++ [c])).run ⟨a, supply'⟩ = (answers ++ [.error e], s') → s'.value = s.value := by
  have hedited := editedTo_runAll hcs ⟨a, supply'⟩
  have hconfigured := hedited.configured g (Term.configured_of_read (read_of_run hr))
  refine ⟨((runAll cs).run ⟨a, supply'⟩).1, ((runAll cs).run ⟨a, supply'⟩).2, rfl, hedited.id, hconfigured,
    fun c hc e => ⟨?_, fun s' hs' => ?_⟩⟩
  · rw [← run_eq_error_iff hconfigured hc, runAll_concat]
    constructor
    · rintro ⟨s', hs'⟩
      simpa using (Prod.mk.inj hs').1
    · intro he
      exact ⟨_, by rw [he]⟩
  · rw [runAll_concat] at hs'
    obtain ⟨hanswers, rfl⟩ := Prod.mk.inj hs'
    refine (allOrNothing_run c).error _ e _ (Prod.ext ?_ rfl)
    simpa using hanswers

/-- A name is set and a parameter taken out; then a delimiter is refused that the grammar does not have. -/
theorem runAll_refused :
    ∃ a, (Occurrence.read {} ['a', '.', 'x', ':', 'y']).run.run {} = (.ok a, ⟨1⟩) ∧
      Refused {} (.addIfAbsent ['y'] ['#']) (.unknownDelimiter ['#']) ∧
      ∃ answers s, (runAll [.setName ['n'], .takeAll (.literal ['x']) ['.'], .addIfAbsent ['y'] ['#']]).run ⟨a, ⟨1⟩⟩ =
          (answers ++ [.error (.unknownDelimiter ['#'])], s) ∧
        s.value = ⟨0, ⟨['n'], [⟨[':'], ['y']⟩], {}⟩⟩ := by
  have hr : (Occurrence.read {} ['a', '.', 'x', ':', 'y']).run.run {} =
      (.ok ⟨0, ⟨['a'], [⟨['.'], ['x']⟩, ⟨[':'], ['y']⟩], {}⟩⟩, ⟨1⟩) := rfl
  have hrefused : Refused {} (.addIfAbsent ['y'] ['#']) (.unknownDelimiter ['#']) := .addIfAbsent (by decide)
  have hedits : ∀ c ∈ [Command.setName ['n'], .takeAll (.literal ['x']) ['.']], c.isEdit = true := by simp [isEdit]
  obtain ⟨answers, s, hrun, -, -, hnext⟩ := runAll_of_read hr hedits
  obtain ⟨hfails, hkept⟩ := hnext (.addIfAbsent ['y'] ['#']) rfl (.unknownDelimiter ['#'])
  obtain ⟨s', hs'⟩ := hfails.2 hrefused
  cases hrun
  exact ⟨_, hr, hrefused, _, s', hs', hkept s' hs'⟩

end Command
end TermTree
