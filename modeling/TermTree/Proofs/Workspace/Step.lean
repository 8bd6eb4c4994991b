/-
Steps that fail. A step at a node makes first what it brings, then looks the node up, and edits it in place; whatever
becomes of the edit, the tree is put back (`run_act`). Each edit is all or nothing (`allOrNothing_of_prepare`), so a step
that fails leaves all trees as they were when what it brings was made (`trees_of_act_error`).
-/
import TermTree.Proofs.Editing
import TermTree.Proofs.Tree.Place

namespace TermTree

theorem Workspace.put_self {w : Workspace} {name : Text} {t : Tree Occurrence} (ht : w.tree? name = some t) :
    w.put name t = w := by
  have hentries : ∀ entries : List (Text × Tree Occurrence), entries.lookup name = some t →
      entriesWith name t entries = entries := by
    intro entries
    induction entries with
    | nil => exact nofun
    | cons entry entries ih =>
      intro h
      rw [List.lookup_cons] at h
      rw [entriesWith]
      split
      · next heq =>
        simp only [heq, beq_self_eq_true] at h
        cases h
        rw [← heq]
      · next hne =>
        rw [beq_eq_false_iff_ne.2 (Ne.symm hne)] at h
        rw [ih h]
  rw [put, hentries w.trees ht]

namespace Work

/-- What is drawn is drawn from the supply of the workspace, and no tree is touched. -/
theorem run_drawing (d : Drawing α) (w : Workspace) :
    (drawing d).run.run w =
      ((d.run.run w.supply).1.mapError .error, { w with supply := (d.run.run w.supply).2 }) := rfl

theorem run_look {w : Workspace} {name : Text} {t : Tree Occurrence} (ht : w.tree? name = some t) :
    (look name).run.run w = (.ok t, w) := by
  have hget : (get : Work Workspace).run.run w = (.ok w, w) := rfl
  rw [look, Outcome.run_bind_ok hget, ht]
  rfl

theorem run_look_error {w : Workspace} {name : Text} (ht : w.tree? name = none) :
    (look name).run.run w = (.error .noTree, w) := by
  have hget : (get : Work Workspace).run.run w = (.ok w, w) := rfl
  rw [look, Outcome.run_bind_ok hget, ht]
  rfl

theorem run_nodeAt_error {t : Tree Occurrence} {p : Path} (hn : t.get? p = none) (w : Workspace) :
    (nodeAt t p).run.run w = (.error .noNode, w) := by
  rw [nodeAt, hn]
  rfl

theorem run_storeCopy (r : Except Error Reply) (w : Workspace) :
    ∃ w', (storeCopy r).run.run w = (.ok (), w') ∧ w'.supply = w.supply := by
  unfold storeCopy
  split
  · split
    · exact ⟨w, rfl, rfl⟩
    · exact ⟨_, rfl, rfl⟩
  · exact ⟨w, rfl, rfl⟩

theorem nodeAt_eq {t n : Tree Occurrence} {p : Path} (hn : t.get? p = some n) : nodeAt t p = pure n := by
  rw [nodeAt, hn]

theorem run_editing {σ : Type} (e : Editing σ α) (a : σ) (w : Workspace) :
    (editing e a).run.run w =
      (.ok ((e.run.run ⟨a, w.supply⟩).1, (e.run.run ⟨a, w.supply⟩).2.value),
        { w with supply := (e.run.run ⟨a, w.supply⟩).2.supply }) := rfl

end Work


/-! ## Edits of a node -/

namespace TreeEdit
open TermTree.Editing
variable {items : List Item}

theorem allOrNothing_append : AllOrNothing (fun _ _ => True) (append items) :=
  .held_bind fun _ => .drawing_bind fun _ _ _ _ => .ofResult_bind fun _ => .put fun _ _ => trivial

theorem allOrNothing_prepend : AllOrNothing (fun _ _ => True) (prepend items) :=
  .held_bind fun _ => .drawing_bind fun _ _ _ _ => .ofResult_bind fun _ => .put fun _ _ => trivial

theorem allOrNothing_replaceChild {target : Id} : AllOrNothing (fun _ _ => True) (replaceChild target items) := by
  refine .held_bind fun t => .drawing_bind fun _ new _ _ => ?_
  cases t with
  | leaf g a => exact .pure (fun _ _ => trivial) false
  | group g cs =>
    cases hi : cs.findIdx? (Tree.isLeafOf target) with
    | none =>
      simp only [hi]
      exact .pure (fun _ _ => trivial) false
    | some i =>
      simp only [hi]
      exact (AllOrNothing.put fun _ _ => trivial).bind_pure _

end TreeEdit

section
open TermTree.Editing

theorem SelectionPlan.sure_report (plan : SelectionPlan) (before : Selection) (visits : Visits) :
    Sure (plan.report before visits) := by
  rw [report]
  refine .bind .held fun t => ?_
  cases plan.save with
  | none => exact .pure _
  | some name => exact .bind (.drawing _) fun _ => .pure _

theorem SelectionPlan.allOrNothing_run (plan : SelectionPlan) : AllOrNothing (fun _ _ => True) plan.run := by
  refine .drawing_bind fun _ selector _ _ => Sure.allOrNothing ?_
  refine .bind .held fun t => .bind (.through _ _) fun visits => ?_
  cases plan.renameLast with
  | none => exact plan.sure_report _ visits
  | some name => exact .bind .held fun t => .bind (.put _) fun _ => plan.sure_report _ visits

/-- Whatever an action brings, what it then does at a node is all or nothing. -/
theorem Action.allOrNothing_of_prepare {action : Action} {edit : NodeEdit} {w w' : Workspace}
    (hprepare : action.prepare.run.run w = (.ok edit, w')) : edit.AllOrNothing fun _ _ => True := by
  cases action with rw [prepare] at hprepare
  | view =>
    cases hprepare
    exact (Sure.bind .held fun _ => .pure _).allOrNothing
  | run commands =>
    cases hprepare
    exact .held_bind fun _ => .ofResult_bind fun _ =>
      .mono (Sure.bind (.through _ _) fun _ => .pure _).allOrNothing fun _ _ _ _ => trivial
  | visit which commands =>
    cases hprepare
    exact (Sure.bind (.through _ _) fun _ => .pure _).allOrNothing
  | replaceChild target items =>
    obtain ⟨items, _, -, hedit⟩ := Outcome.run_bind_eq_ok hprepare
    cases hedit
    exact TreeEdit.allOrNothing_replaceChild.bind_pure _
  | append items =>
    obtain ⟨items, _, -, hedit⟩ := Outcome.run_bind_eq_ok hprepare
    cases hedit
    exact TreeEdit.allOrNothing_append.bind_pure _
  | prepend items =>
    obtain ⟨items, _, -, hedit⟩ := Outcome.run_bind_eq_ok hprepare
    cases hedit
    exact TreeEdit.allOrNothing_prepend.bind_pure _
  | removeHeads selectors | removeLeaves selectors =>
    obtain ⟨selectors, _, -, hedit⟩ := Outcome.run_bind_eq_ok hprepare
    cases hedit
    exact (Sure.bind .held fun _ => .bind (.put _) fun _ => .pure _).allOrNothing
  | select plan =>
    cases hprepare
    exact plan.allOrNothing_run.bind_pure _
  | runOn target commands =>
    cases hprepare
    refine (Sure.bind .held fun t => ?_).allOrNothing
    cases t.visitId (CommandRecipe.runOn commands) target with
    | none => exact .pure _
    | some work => exact .bind (.through _ _) fun _ => .pure _
  | editChildren edit =>
    cases hprepare
    exact .held_bind fun _ => .ofResult_bind fun _ =>
      .mono (Sure.bind (.put _) fun _ => .pure _).allOrNothing fun _ _ _ _ => trivial
  | become node =>
    obtain ⟨new, _, -, hedit⟩ := Outcome.run_bind_eq_ok hprepare
    cases hedit
    exact (Sure.bind .held fun _ => .bind (.put _) fun _ => .pure _).allOrNothing

end

/-! ## Steps -/

namespace Step
variable {w w' : Workspace} {name : Text} {path : Path} {action : Action} {t n : Tree Occurrence}

theorem run_act {edit : NodeEdit} (hprepare : action.prepare.run.run w = (.ok edit, w')) (ht : w'.tree? name = some t)
    (hn : t.get? path = some n) :
    (act name path action).run.run.run w =
      (do
        Work.storeCopy (edit.run.run ⟨n, w'.supply⟩).1
        Work.put name (t.setAt path (edit.run.run ⟨n, w'.supply⟩).2.value)
        Work.ofResult (edit.run.run ⟨n, w'.supply⟩).1 : Work Reply).run.run
          { w' with supply := (edit.run.run ⟨n, w'.supply⟩).2.supply } := by
  rw [run, Outcome.run_bind_ok hprepare, Outcome.run_bind_ok (Work.run_look ht), Work.nodeAt_eq hn, pure_bind,
    Outcome.run_bind_ok (Work.run_editing edit n w')]

/-- If the edit fails, the node is put back as it was. -/
theorem run_act_error {edit : NodeEdit} (hprepare : action.prepare.run.run w = (.ok edit, w'))
    (ht : w'.tree? name = some t) (hn : t.get? path = some n) {e : Error} {s : Held (Tree Occurrence)}
    (hfails : edit.run.run ⟨n, w'.supply⟩ = (.error e, s)) :
    (act name path action).run.run.run w = (.error (.error e), { w' with supply := s.supply }) := by
  rw [run_act hprepare ht hn, hfails]
  have hkept : s.value = n := (Action.allOrNothing_of_prepare hprepare).error _ e s hfails
  have hput : ({ w' with supply := s.supply } : Workspace).put name t = { w' with supply := s.supply } :=
    Workspace.put_self ht
  show (_, ({ w' with supply := s.supply } : Workspace).put name (t.setAt path s.value)) = _
  rw [hkept, Tree.setAt_self hn, hput]
  rfl

/-- A step at a node fails because it cannot make what it brings, or because its node is not there; or it goes on as
`run_act` says. -/
theorem act_cases (name : Text) (path : Path) (action : Action) (w : Workspace) :
    (∃ f w', action.prepare.run.run w = (.error f, w') ∧ (act name path action).run.run.run w = (.error f, w')) ∨
      ∃ edit w', action.prepare.run.run w = (.ok edit, w') ∧
        ((∃ f, (act name path action).run.run.run w = (.error f, w')) ∨
          ∃ t n, w'.tree? name = some t ∧ t.get? path = some n) := by
  rw [run]
  cases hprepare : action.prepare.run.run w with
  | mk r w' =>
    cases r with
    | error f => exact .inl ⟨f, w', rfl, Outcome.run_bind_error hprepare⟩
    | ok edit =>
      refine .inr ⟨edit, w', rfl, ?_⟩
      rw [Outcome.run_bind_ok hprepare]
      cases ht : w'.tree? name with
      | none => exact .inl ⟨_, Outcome.run_bind_error (Work.run_look_error ht)⟩
      | some t =>
        rw [Outcome.run_bind_ok (Work.run_look ht)]
        cases hn : t.get? path with
        | none => exact .inl ⟨_, Outcome.run_bind_error (Work.run_nodeAt_error hn w')⟩
        | some n => exact .inr ⟨t, n, rfl, hn⟩

/-- **A step at a node that fails leaves all trees as they were** when what it brings was made, whatever it was that
failed. -/
theorem trees_of_act_error {w'' : Workspace} {f : Failure}
    (hfails : (act name path action).run.run.run w = (.error f, w'')) :
    ∃ r w', action.prepare.run.run w = (r, w') ∧ w''.trees = w'.trees := by
  rcases act_cases name path action w with ⟨_, w', hprepare, hrun⟩ | ⟨edit, w', hprepare, ⟨_, hrun⟩ | ⟨t, n, ht, hn⟩⟩
  · rw [hrun] at hfails
    cases hfails
    exact ⟨_, _, hprepare, rfl⟩
  · rw [hrun] at hfails
    cases hfails
    exact ⟨_, _, hprepare, rfl⟩
  · refine ⟨_, w', hprepare, ?_⟩
    cases hedit : edit.run.run ⟨n, w'.supply⟩ with
    | mk r s =>
      cases r with
      | error e =>
        rw [run_act_error hprepare ht hn hedit] at hfails
        cases hfails
        rfl
      | ok reply =>
        obtain ⟨w₁, hstore, -⟩ := Work.run_storeCopy (.ok reply) { w' with supply := s.supply }
        rw [run_act hprepare ht hn, hedit, Outcome.run_bind_ok hstore] at hfails
        cases hfails

end Step
end TermTree
