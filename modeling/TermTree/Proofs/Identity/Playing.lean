/-
Computations as runs of calls. A computation that works on a state in which things are held makes some calls on them
and on what it is handed, and holds other things when it is done; one that fails has lost what it was handed
(`Plays`). Nothing is said about which calls these are, nor in which order the things are held (`Leads`), so that the
relation goes along a computation step by step, and what every run of calls does to identities it does as well.
-/
import TermTree.Proofs.Identity.Holdings

namespace TermTree

namespace Holdings
variable {s t u : Holdings} {c : Call} {r : Except Error (List (Thing Occurrence))} {supply supply' : Supply}
  {xs ys rest : List (Thing Occurrence)}

/-! ## Runs of calls -/

theorem Step.of_perm (h : Step s c r t) (hs : u.supply = s.supply) (hp : u.things.Perm s.things) :
    Step u c r t := by
  cases h with
  | call hp' hrun => exact .call (hp.trans hp') (hs ▸ hrun)

/-- A call does not look at what it is not handed. -/
theorem Step.frame (h : Step s c r t) (rest : List (Thing Occurrence)) :
    Step ⟨s.supply, s.things ++ rest⟩ c r ⟨t.supply, t.things ++ rest⟩ := by
  cases h with
  | call hp hrun =>
    rw [List.append_assoc]
    refine .call ?_ hrun
    rw [← List.append_assoc]
    exact hp.append_right rest

theorem Reaches.frame (h : Reaches s t) (rest : List (Thing Occurrence)) :
    Reaches ⟨s.supply, s.things ++ rest⟩ ⟨t.supply, t.things ++ rest⟩ := by
  induction h with
  | refl => exact .refl
  | step _ hstep ih => exact ih.step (hstep.frame rest)

theorem Reaches.trans (h : Reaches s t) (h' : Reaches t u) : Reaches s u := by
  induction h' with
  | refl => exact h
  | step _ hstep ih => exact ih.step hstep

/-- Some calls lead from one to the other, but for the order of the things. -/
def Leads (s t : Holdings) : Prop := ∃ u, Reaches s u ∧ u.supply = t.supply ∧ u.things.Perm t.things

namespace Leads

theorem refl : Leads s s := ⟨s, .refl, rfl, .refl _⟩

theorem of_perm (h : xs.Perm ys) : Leads ⟨supply, xs⟩ ⟨supply, ys⟩ := ⟨_, .refl, rfl, h⟩

theorem of_reaches (h : Reaches s t) (hs : u.supply = s.supply) (hp : u.things.Perm s.things) : Leads u t := by
  induction h with
  | refl => exact ⟨u, .refl, hs, hp⟩
  | step _ hstep ih =>
    obtain ⟨v, hreach, hsupply, hthings⟩ := ih
    exact ⟨_, hreach.step (hstep.of_perm hsupply hthings), rfl, .refl _⟩

theorem trans (h : Leads s t) (h' : Leads t u) : Leads s u := by
  obtain ⟨v, hreach, hsupply, hthings⟩ := h
  obtain ⟨v', hreach', hsupply', hthings'⟩ := h'
  obtain ⟨v'', hreach'', hsupply'', hthings''⟩ := of_reaches hreach' hsupply hthings
  exact ⟨v'', hreach.trans hreach'', hsupply''.trans hsupply', hthings''.trans hthings'⟩

theorem frame (h : Leads ⟨supply, xs⟩ ⟨supply', ys⟩) (rest : List (Thing Occurrence)) :
    Leads ⟨supply, xs ++ rest⟩ ⟨supply', ys ++ rest⟩ := by
  obtain ⟨v, hreach, hsupply, hthings⟩ := h
  exact ⟨_, hreach.frame rest, hsupply, hthings.append_right rest⟩

theorem frame_left (h : Leads ⟨supply, xs⟩ ⟨supply', ys⟩) (rest : List (Thing Occurrence)) :
    Leads ⟨supply, rest ++ xs⟩ ⟨supply', rest ++ ys⟩ :=
  (of_perm List.perm_append_comm).trans ((h.frame rest).trans (of_perm List.perm_append_comm))

theorem call (hrun : c.run.run.run supply = (r, supply')) :
    Leads ⟨supply, c.taken⟩ ⟨supply', c.back r⟩ := by
  have hstep : Step ⟨supply, c.taken⟩ c r ⟨supply', c.back r ++ []⟩ :=
    .call (.of_eq (List.append_nil _).symm) hrun
  rw [List.append_nil] at hstep
  exact ⟨_, Reaches.refl.step hstep, rfl, .refl _⟩

theorem drop (xs : List (Thing Occurrence)) : Leads ⟨supply, xs⟩ ⟨supply, []⟩ := by
  induction xs with
  | nil => exact refl
  | cons x xs ih =>
    have hfirst : Leads ⟨supply, [x]⟩ ⟨supply, []⟩ := call (c := .drop x) (r := .ok []) rfl
    exact (hfirst.frame xs).trans ih

theorem of_sheds (gone : List (Thing Occurrence)) (h : (ys ++ gone).Perm xs) : Leads ⟨supply, xs⟩ ⟨supply, ys⟩ := by
  have hdrop : Leads ⟨supply, ys ++ gone⟩ ⟨supply, ys ++ []⟩ := (drop gone).frame_left ys
  rw [List.append_nil] at hdrop
  exact (of_perm h.symm).trans hdrop

theorem le (h : Leads s t) : s.supply.next ≤ t.supply.next := by
  obtain ⟨u, hreach, hsupply, -⟩ := h
  exact hsupply ▸ hreach.le

theorem perm_ids (h : s.things.Perm t.things) : s.ids.Perm t.ids := (h.flatMap_right Thing.carried).map _

theorem sound (h : Leads s t) (hs : s.Sound) : t.Sound := by
  obtain ⟨u, hreach, hsupply, hthings⟩ := h
  have hu := hreach.sound hs
  have hids := perm_ids hthings
  exact ⟨hids.nodup_iff.1 hu.nodup, fun i hi => hsupply ▸ hu.drawn i (hids.mem_iff.2 hi)⟩

theorem mem_or_le (h : Leads s t) {i : Id} (hi : i ∈ t.ids) : i ∈ s.ids ∨ s.supply.next ≤ i := by
  obtain ⟨u, hreach, -, hthings⟩ := h
  exact hreach.mem_or_le ((perm_ids hthings).mem_iff.2 hi)

end Leads

/-- The same holdings with some things more. -/
def plus (s : Holdings) (xs : List (Thing Occurrence)) : Holdings := ⟨s.supply, s.things ++ xs⟩

theorem plus_nil (s : Holdings) : s.plus [] = s := by rw [plus, List.append_nil]

theorem plus_append (s : Holdings) (xs ys : List (Thing Occurrence)) : s.plus (xs ++ ys) = (s.plus xs).plus ys := by
  rw [plus, plus, plus, List.append_assoc]

end Holdings

/-! ## Computations -/

section
open Holdings
variable {ε σ α β γ : Type} {view : σ → Holdings} {brought brought' rest : List (Thing Occurrence)}
  {held held₁ : α → List (Thing Occurrence)} {held' : β → List (Thing Occurrence)} {s : σ}

/-- In the state `s`, in which `view s` is held, the computation is handed `brought`, makes some calls, and holds what
its result says besides what is then held in the state. -/
def Plays (view : σ → Holdings) (brought : List (Thing Occurrence)) (held : α → List (Thing Occurrence))
    (d : ExceptT ε (StateM σ) α) (s : σ) : Prop :=
  match d.run.run s with
  | (.ok a, s') => Leads ((view s).plus brought) ((view s').plus (held a))
  | (.error _, s') => Leads ((view s).plus brought) (view s')

theorem plays_of_ok {d : ExceptT ε (StateM σ) α} {a : α} {t : σ} (hd : d.run.run s = (.ok a, t))
    (h : Leads ((view s).plus brought) ((view t).plus (held a))) : Plays view brought held d s := by
  rw [Plays, hd]
  exact h

theorem plays_pure {a : α} (h : Leads ⟨(view s).supply, brought⟩ ⟨(view s).supply, held a⟩) :
    Plays view brought held (pure a : ExceptT ε (StateM σ) α) s := h.frame_left _

theorem plays_drop {a : α} : Plays view brought (fun _ => []) (pure a : ExceptT ε (StateM σ) α) s :=
  plays_pure (Leads.drop brought)

/-- A computation that fails at once loses what it was handed. -/
theorem plays_fail {d : ExceptT ε (StateM σ) α} {e : ε} (hd : d.run.run s = (.error e, s)) :
    Plays view brought held d s := by
  have hdrop : Leads ((view s).plus brought) ((view s).plus []) := (Leads.drop brought).frame_left _
  rw [plus_nil] at hdrop
  rw [Plays, hd]
  exact hdrop

namespace Plays

/-- What leads to the things that the next computation is handed may be any calls. -/
theorem after {d : ExceptT ε (StateM σ) α} {f : α → ExceptT ε (StateM σ) β} {a : α} {t : σ}
    (hr : d.run.run s = (.ok a, t)) (hlead : Leads ((view s).plus brought) ((view t).plus rest))
    (hf : Plays view rest held' (f a) t) : Plays view brought held' (d >>= f) s := by
  rw [Plays] at hf ⊢
  rw [Outcome.run_bind_ok hr]
  split at hf
  · exact hlead.trans hf
  · exact hlead.trans hf

theorem bind {d : ExceptT ε (StateM σ) α} {f : α → ExceptT ε (StateM σ) β} (hd : Plays view brought held d s)
    (hf : ∀ a s', d.run.run s = (.ok a, s') → Plays view (held a) held' (f a) s') :
    Plays view brought held' (d >>= f) s := by
  rw [Plays] at hd
  split at hd
  · next a s' hr => exact after hr hd (hf a s' hr)
  · next e s' hr =>
    rw [Plays, Outcome.run_bind_error hr]
    exact hd

theorem map {d : ExceptT ε (StateM σ) α} {k : α → β} (hd : Plays view brought (fun a => held' (k a)) d s) :
    Plays view brought held' (do return k (← d)) s := hd.bind fun _ _ _ => plays_pure .refl

/-- What the computation is not handed it does not touch. -/
theorem frame {d : ExceptT ε (StateM σ) α} (hd : Plays view brought held d s) (rest : List (Thing Occurrence)) :
    Plays view (brought ++ rest) (fun a => held a ++ rest) d s := by
  rw [Plays] at hd ⊢
  split at hd
  · rw [plus_append, plus_append]
    exact Leads.frame hd rest
  · rw [plus_append]
    exact (Leads.frame hd rest).trans (.of_sheds rest (.refl _))

theorem of_perm {d : ExceptT ε (StateM σ) α} (hd : Plays view brought held d s) (hb : brought'.Perm brought)
    (ha : ∀ a, (held a).Perm (held₁ a)) : Plays view brought' held₁ d s := by
  have hbrought : Leads ((view s).plus brought') ((view s).plus brought) := .of_perm (hb.append_left _)
  rw [Plays] at hd ⊢
  split at hd
  · exact hbrought.trans (hd.trans (.of_perm ((ha _).append_left _)))
  · exact hbrought.trans hd

theorem mapM {f : γ → ExceptT ε (StateM σ) α} {cs : List γ} (hf : ∀ c ∈ cs, ∀ s, Plays view [] held (f c) s) (s : σ) :
    Plays view [] (fun as => as.flatMap held) (cs.mapM f) s := by
  induction cs generalizing s with
  | nil => exact plays_pure .refl
  | cons c cs ih =>
    rw [List.mapM_cons]
    refine (hf c List.mem_cons_self s).bind fun a s' _ => ?_
    have hrest := (ih (fun d hd => hf d (List.mem_cons_of_mem c hd)) s').frame (held a)
    exact hrest.bind fun as _ _ => plays_pure (.of_perm List.perm_append_comm)

theorem le {d : ExceptT ε (StateM σ) α} (hd : Plays view brought held d s) :
    (view s).supply.next ≤ (view (d.run.run s).2).supply.next := by
  rw [Plays] at hd
  split at hd
  · next a s' hr =>
    rw [hr]
    exact Leads.le (s := (view s).plus brought) (t := (view s').plus (held a)) hd
  · next e s' hr =>
    rw [hr]
    exact Leads.le (s := (view s).plus brought) hd

end Plays

/-! ## Drawing identities -/

/-- Nothing but a supply. -/
def Supply.alone (s : Supply) : Holdings := ⟨s, []⟩

/-- What is drawn from the supply of a state is drawn by the same calls, whatever else is held in the state. -/
theorem Plays.of_drawing {d : Drawing α} {e : ExceptT ε (StateM σ) α} {k : Error → ε} {t : σ}
    (hd : Plays Supply.alone brought held d (view s).supply)
    (he : e.run.run s = ((d.run.run (view s).supply).1.mapError k, t))
    (ht : view t = ⟨(d.run.run (view s).supply).2, (view s).things⟩) : Plays view brought held e s := by
  rw [Plays] at hd
  split at hd
  · next a s' hr =>
    rw [hr] at he ht
    refine plays_of_ok he ?_
    rw [ht]
    exact Leads.frame_left hd _
  · next f s' hr =>
    rw [hr] at he ht
    have hframe := Leads.frame_left hd (view s).things
    rw [List.append_nil] at hframe
    rw [Plays, he]
    show Leads _ (view t)
    rw [ht]
    exact hframe

theorem plays_call {c : Call} {d : Drawing α} (hrun : c.run = do return held (← d)) (hlent : c.lent = []) (s : Supply) :
    Plays Supply.alone c.passed held d s := by
  have htaken : c.taken = c.passed := by rw [Call.taken, hlent, List.nil_append]
  rw [Plays]
  split
  · next a s' hr =>
    have hcall : c.run.run.run s = (.ok (held a), s') := by
      rw [hrun, Outcome.run_bind_ok hr]
      rfl
    exact htaken ▸ Leads.call hcall
  · next e s' hr =>
    have hcall : c.run.run.run s = (.error e, s') := by rw [hrun, Outcome.run_bind_error hr]
    have hback : c.back (.error e) = [] := hlent
    have hlead := Leads.call hcall
    rw [htaken, hback] at hlead
    exact hlead

end
end TermTree
