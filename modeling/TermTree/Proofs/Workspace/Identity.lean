/-
Steps on a workspace as runs of calls. What an action does at a node it does by calls that change the node in its tree
(`plays_prepare`), and a step makes what it brings, changes the node, and puts the tree back where it was
(`Step.plays_run`). So a workspace holds after any steps what some run of calls leads to, and what such runs do to
identities the steps do: none stands in a workspace twice, and none that is gone comes back (`identity_after`).
-/
import TermTree.Proofs.Workspace.Making

namespace TermTree
open Holdings

/-! ## Edits of a node -/

section
variable {α β : Type} {tree n : Tree Occurrence} {path : Path} {s : Held (Tree Occurrence)}
  {brought : List (Thing Occurrence)} {held : α → List (Thing Occurrence)} {held' : β → List (Thing Occurrence)}

/-- The tree with the node that is held in its place. -/
def viewAt (tree : Tree Occurrence) (path : Path) (s : Held (Tree Occurrence)) : Holdings :=
  ⟨s.supply, [.tree (tree.setAt path s.value)]⟩

/-- An edit that does to the node what a change does, and hands out nothing. -/
theorem plays_change (hn : tree.get? path = some n) {e : Editing (Tree Occurrence) α} {c : Change}
    (hok : ∀ a s', e.run.run s = (.ok a, s') →
      held a = [] ∧ (c.run s.value).run.run s.supply = (.ok s'.value, s'.supply))
    (herror : ∀ f s', e.run.run s = (.error f, s') →
      (c.run s.value).run.run s.supply = (.error f, s'.supply) ∧ s'.value = s.value) :
    Plays (viewAt tree path) (Call.itemThings c.items) held e s := by
  let spot : Spot := ⟨tree.setAt path s.value, path, s.value, Tree.get?_setAt hn s.value⟩
  rw [Plays]
  split
  · next a s' hr =>
    obtain ⟨hheld, hchange⟩ := hok a s' hr
    have hput : spot.put s'.value = tree.setAt path s'.value := Tree.setAt_setAt hn s.value s'.value
    have hrun : (Call.change spot c).run.run.run s.supply = (.ok [.tree (tree.setAt path s'.value)], s'.supply) := by
      rw [Call.run, Outcome.run_bind_ok hchange, ← hput]
      rfl
    rw [hheld, plus_nil]
    exact Leads.call hrun
  · next f s' hr =>
    obtain ⟨hfails, hvalue⟩ := herror f s' hr
    have hrun : (Call.change spot c).run.run.run s.supply = (.error f, s'.supply) := by
      rw [Call.run, Outcome.run_bind_error hfails]
    rw [viewAt, viewAt, hvalue]
    exact Leads.call hrun

/-- An edit in place, of which the change is what is then held. -/
theorem plays_on (hn : tree.get? path = some n) {e : Editing (Tree Occurrence) α} {c : Change}
    {R : Tree Occurrence → Tree Occurrence → Prop} (hall : e.AllOrNothing R)
    (hc : ∀ t, c.run t = do return (← e.on t).2) :
    Plays (viewAt tree path) (Call.itemThings c.items) (fun _ => []) e s := by
  refine plays_change hn (fun a s' hr => ⟨rfl, ?_⟩) fun f s' hr => ⟨?_, hall.error s f s' hr⟩
  · rw [hc, Outcome.run_bind_ok (Editing.run_on_eq_ok.2 hr)]
    rfl
  · rw [hc, Outcome.run_bind_error (Editing.run_on_eq_error.2 ⟨s'.value, hr⟩)]

theorem plays_held_bind {f : Tree Occurrence → Editing (Tree Occurrence) α}
    (h : Plays (viewAt tree path) brought held (f s.value) s) :
    Plays (viewAt tree path) brought held (Editing.held >>= f) s := h

theorem plays_drawing_at {d : Drawing α} (h : Plays Supply.alone brought held d s.supply) :
    Plays (viewAt tree path) brought held (Editing.drawing d) s := by
  have hrun : (Editing.drawing d : Editing (Tree Occurrence) α).run.run s =
      ((d.run.run s.supply).1.mapError fun e => e, { s with supply := (d.run.run s.supply).2 }) := by
    rw [Outcome.mapError_id]
    exact Editing.run_drawing d s
  exact h.of_drawing hrun rfl

/-- The same of an edit that does not fail. -/
theorem plays_of_change (hn : tree.get? path = some n) {e : Editing (Tree Occurrence) α} {c : Change} {a : α}
    {t : Held (Tree Occurrence)} (hr : e.run.run s = (.ok a, t)) (hheld : held a = [])
    (hc : (c.run s.value).run.run s.supply = (.ok t.value, t.supply)) :
    Plays (viewAt tree path) (Call.itemThings c.items) held e s := by
  refine plays_change hn (fun a' s' hr' => ?_) fun f s' hr' => ?_
  · cases hr.symm.trans hr'
    exact ⟨hheld, hc⟩
  · cases hr.symm.trans hr'

/-- Commands that are run on some leaves of the node. -/
theorem plays_visit (hn : tree.get? path = some n) (which : Visiting) (commands : List CommandRecipe) :
    Plays (viewAt tree path) [] (fun _ => []) (Editing.through (which.run _ (CommandRecipe.runOn commands)) []) s :=
  plays_of_change (c := .visit which (CommandRecipe.termEdit commands) []) hn rfl rfl rfl

theorem plays_visitSelected (hn : tree.get? path = some n) {σ : Type} (paths : List Path) (f : TermEdit σ) (start : σ) :
    Plays (viewAt tree path) [] (fun _ => [])
      (Editing.through (fun _ => do return (← Selection.visit f.edit ⟨s.value, paths⟩).tree) start) s :=
  plays_of_change (c := .visitSelected paths f start) hn rfl rfl rfl

/-- What an edit makes of a leaf without any effect, it makes of it in whatever monad. -/
theorem Tree.modifyAt_pure {m : Type → Type} [Monad m] [LawfulMonad m] (k : Occurrence → Occurrence) (p : Path)
    (t : Tree Occurrence) :
    t.modifyAt (m := m) (visitLeaf fun a => pure (k a)) p = pure (Id.run (t.modifyAt (visitLeaf fun a => pure (k a)) p)) := by
  induction p generalizing t with
  | nil =>
    cases t with
    | leaf g a => simp [modifyAt, visitLeaf]
    | group g cs => rfl
  | cons i p ih =>
    cases t with
    | leaf g a => rfl
    | group g cs =>
      simp only [modifyAt]
      split
      · rfl
      · next c hc =>
        rw [ih, map_pure]
        rfl

/-- A new name for a term. -/
def TermEdit.naming (name : Text) : TermEdit Unit where
  run a := pure (a.term.setName name)
  grows _ _ := Nat.le_refl _

theorem plays_renameLast (hn : tree.get? path = some n) (paths : List Path) (name : Text) :
    Plays (viewAt tree path) [] (fun _ => [])
      (Editing.put (Id.run
        (Selection.visitLast (Occurrence.edit fun a => pure (a.term.setName name)) ⟨s.value, paths⟩)).tree) s := by
  cases hlast : paths.getLast? with
  | none =>
    refine plays_of_ok (t := s) (a := ()) ?_ .refl
    rw [Selection.visitLast, hlast]
    rfl
  | some p =>
    have hedit := Tree.modifyAt_pure (m := StateM (Held Unit)) (fun a => { a with term := a.term.setName name }) p s.value
    have hrun := congrArg (fun d => d.run ⟨(), s.supply⟩) hedit
    rw [Selection.visitLast, hlast]
    refine plays_of_change (c := .visitSelected [p] (.naming name) ()) hn rfl rfl ?_
    exact congrArg (fun r => (Except.ok r.1, r.2.supply)) hrun

end

/-! ## Selections -/

/-- The tree that a reply hands out: the copy of a selection, which is to be stored. -/
def Reply.things : Reply → List (Thing Occurrence)
  | .selection report => report.saved.toList.map fun (_, copy) => .tree copy
  | _ => []

section
variable {tree n : Tree Occurrence} {path : Path} {s : Held (Tree Occurrence)}

theorem SelectionPlan.plays_report (plan : SelectionPlan) (hn : tree.get? path = some n) (before : Selection)
    (visits : Visits) :
    Plays (viewAt tree path) [] (fun report => (Reply.selection report).things) (plan.report before visits) s := by
  rw [report]
  refine plays_held_bind ?_
  cases plan.save with
  | none => exact plays_pure .refl
  | some name =>
    let spot : Spot := ⟨tree.setAt path s.value, path, s.value, Tree.get?_setAt hn s.value⟩
    refine plays_of_ok rfl ?_
    exact Leads.call (c := .copy (.selected spot before.paths)) (r := .ok _) rfl

theorem SelectionPlan.plays_run (plan : SelectionPlan) (hn : tree.get? path = some n) :
    Plays (viewAt tree path) [] (fun report => (Reply.selection report).things) plan.run s := by
  rw [run]
  refine (plays_drawing_at (plan.selector.plays_make s.supply)).bind fun selector s₁ _ => plays_held_bind ?_
  refine (plays_visitSelected hn (s₁.value.select selector).paths (CommandRecipe.termEdit plan.commands) []).bind
    fun visits s₂ _ => ?_
  cases plan.renameLast with
  | none => exact plan.plays_report hn _ visits
  | some name =>
    exact plays_held_bind ((plays_renameLast hn _ name).bind fun _ _ _ => plan.plays_report hn _ visits)

end
/-! ## Actions -/

/-- At whatever node, the edit makes calls on the tree of the node and on what it is handed. -/
def NodeEdit.PlaysAnywhere (edit : NodeEdit) (brought : List (Thing Occurrence)) : Prop :=
  ∀ {tree n : Tree Occurrence} {path : Path}, tree.get? path = some n →
    ∀ s, Plays (viewAt tree path) brought Reply.things edit s

/-- What an action brings it makes by calls, and hands it to the edit. -/
def Action.PreparesBy (prepare : Work NodeEdit) (w : Workspace) : Prop :=
  match prepare.run.run w with
  | (.ok edit, w') => ∃ xs, Leads w.holdings (w'.holdings.plus xs) ∧ edit.PlaysAnywhere xs
  | (.error _, w') => Leads w.holdings w'.holdings

section
variable {α β : Type} {w : Workspace} {held : α → List (Thing Occurrence)}

theorem Action.preparesBy_bind {d : Work α} {k : α → NodeEdit} (hd : Plays Workspace.holdings [] held d w)
    (hk : ∀ a, (k a).PlaysAnywhere (held a)) : PreparesBy (do return k (← d)) w := by
  rw [Plays, plus_nil] at hd
  rw [PreparesBy]
  split at hd
  · next a w' hr =>
    rw [Outcome.run_bind_ok hr]
    exact ⟨held a, hd, hk a⟩
  · next e w' hr =>
    rw [Outcome.run_bind_error hr]
    exact hd

theorem Action.preparesBy_pure {edit : NodeEdit} (h : edit.PlaysAnywhere []) : PreparesBy (pure edit) w :=
  ⟨[], by rw [plus_nil]; exact .refl, h⟩

end

/-- **Each action makes calls.** -/
theorem Action.preparesBy (action : Action) (w : Workspace) : PreparesBy action.prepare w := by
  cases action with rw [prepare]
  | view => exact preparesBy_pure fun _ _ => plays_held_bind (plays_pure .refl)
  | run commands =>
    refine preparesBy_pure fun hn s => plays_held_bind ?_
    cases hs : s.value with
    | group g cs => exact plays_fail (s := s) rfl
    | leaf g a =>
      have hvisit : Plays (viewAt _ _) [] (fun _ => [])
          (Editing.through (Tree.visitLeaf (CommandRecipe.runOn commands)) []) s :=
        plays_of_change (c := .visitSelected [[]] (CommandRecipe.termEdit commands) []) hn rfl rfl rfl
      exact hvisit.bind fun _ _ _ => plays_pure .refl
  | visit which commands =>
    exact preparesBy_pure fun hn _ => (plays_visit hn which commands).bind fun _ _ _ => plays_pure .refl
  | replaceChild target items =>
    exact preparesBy_bind (ItemRecipe.plays_mapM_make items w) fun items _ _ _ hn _ =>
      (plays_on (c := .replaceChild target items) hn TreeEdit.allOrNothing_replaceChild fun _ => rfl).bind
        fun _ _ _ => plays_pure .refl
  | append items =>
    exact preparesBy_bind (ItemRecipe.plays_mapM_make items w) fun items _ _ _ hn _ =>
      (plays_on (c := .append items) hn TreeEdit.allOrNothing_append fun _ => rfl).bind fun _ _ _ => plays_pure .refl
  | prepend items =>
    exact preparesBy_bind (ItemRecipe.plays_mapM_make items w) fun items _ _ _ hn _ =>
      (plays_on (c := .prepend items) hn TreeEdit.allOrNothing_prepend fun _ => rfl).bind fun _ _ _ => plays_pure .refl
  | removeHeads selectors =>
    exact preparesBy_bind (SelectorRecipe.plays_mapM_make selectors w) fun selectors _ _ _ hn _ =>
      plays_of_change (c := .removeHeads selectors) hn rfl rfl rfl
  | removeLeaves selectors =>
    exact preparesBy_bind (SelectorRecipe.plays_mapM_make selectors w) fun selectors _ _ _ hn _ =>
      plays_of_change (c := .removeLeaves selectors) hn rfl rfl rfl
  | select plan => exact preparesBy_pure fun hn _ => (plan.plays_run hn).bind fun _ _ _ => plays_pure .refl
  | runOn target commands =>
    refine preparesBy_pure fun hn s => plays_held_bind ?_
    rw [Tree.visitId]
    cases s.value.findPath? target with
    | none => exact plays_pure .refl
    | some p =>
      have hvisit : Plays (viewAt _ _) [] (fun _ => [])
          (Editing.through (fun _ => s.value.visitAt (CommandRecipe.runOn commands) p) []) s :=
        plays_of_change (c := .visitSelected [p] (CommandRecipe.termEdit commands) []) hn rfl rfl rfl
      exact hvisit.bind fun _ _ _ => plays_pure .refl
  | editChildren edit =>
    refine preparesBy_pure fun hn s => plays_held_bind ?_
    cases hs : s.value with
    | leaf g a => exact plays_fail (s := s) rfl
    | group g cs =>
      refine plays_of_change (c := .editChildren edit) hn rfl rfl ?_
      rw [hs]
      rfl
  | become node =>
    exact preparesBy_bind (node.plays_make w) fun new _ _ _ hn _ =>
      plays_of_change (c := .become new) hn rfl rfl rfl

/-! ## Steps -/

namespace Step
variable {w : Workspace} {name : Text} {t : Tree Occurrence} {rest : List (Thing Occurrence)}

/-- What an edit hands out. -/
def thingsOf : Except Error Reply → List (Thing Occurrence)
  | .ok reply => reply.things
  | .error _ => []

/-- The tree that a step works on is put back in its place, besides a copy that is stored. -/
theorem exists_run_putBack (ht : w.tree? name = some t) (hrest : (Workspace.thingsOf w.trees).Perm (.tree t :: rest))
    (hput : ∀ u, (Workspace.thingsOf (Workspace.entriesWith name u w.trees)).Perm (.tree u :: rest))
    (r : Except Error Reply) (new : Tree Occurrence) :
    ∃ w' gone, (do
        Work.storeCopy r
        Work.put name new
        Work.ofResult r : Work Reply).run.run w = (r.mapError .error, w') ∧ w'.supply = w.supply ∧
      (Workspace.thingsOf w'.trees ++ gone).Perm (.tree new :: (thingsOf r ++ rest)) := by
  have hplain : (Workspace.thingsOf (Workspace.entriesWith name new w.trees) ++ []).Perm (.tree new :: rest) := by
    rw [List.append_nil]
    exact hput new
  cases r with
  | error e => exact ⟨_, [], rfl, rfl, hplain⟩
  | ok reply =>
    cases reply with
    | selection report =>
      cases hsaved : report.saved with
      | none =>
        have hthings : thingsOf (.ok (.selection report)) = [] := by simp [thingsOf, Reply.things, hsaved]
        refine ⟨w.put name new, [], ?_, rfl, ?_⟩
        · simp only [Work.storeCopy, hsaved]
          rfl
        · rw [hthings]
          exact hplain
      | some saved =>
        obtain ⟨copyName, copy⟩ := saved
        have hthings : thingsOf (.ok (.selection report)) = [.tree copy] := by simp [thingsOf, Reply.things, hsaved]
        obtain ⟨gone, hgone⟩ := Workspace.exists_perm_store_put ht hrest hput copyName copy new
        refine ⟨(w.put copyName copy).put name new, gone, ?_, rfl, ?_⟩
        · simp only [Work.storeCopy, hsaved]
          rfl
        · rw [hthings]
          exact hgone
    | _ => exact ⟨_, [], rfl, rfl, hplain⟩

/-- The node is edited in its tree, whether the edit fails or not. -/
theorem leads_edit {edit : NodeEdit} {xs : List (Thing Occurrence)} {n : Tree Occurrence} {path : Path}
    (hedit : edit.PlaysAnywhere xs) (hn : t.get? path = some n) {s : Supply} {r : Except Error Reply}
    {h : Held (Tree Occurrence)} (hr : edit.run.run ⟨n, s⟩ = (r, h)) :
    Leads ⟨s, .tree t :: xs⟩ ⟨h.supply, .tree (t.setAt path h.value) :: thingsOf r⟩ := by
  have hplays := hedit hn ⟨n, s⟩
  rw [Plays, hr, viewAt, Tree.setAt_self hn] at hplays
  cases r with
  | error e => exact hplays
  | ok reply => exact hplays

theorem plays_act (name : Text) (path : Path) (action : Action) (w : Workspace) :
    Plays Workspace.holdings [] (fun _ => []) (act name path action).run w := by
  have hprepares := action.preparesBy w
  rw [Plays, plus_nil]
  rcases act_cases name path action w with ⟨f, w', hprepare, hrun⟩ | ⟨edit, w', hprepare, hcases⟩
  · rw [Action.PreparesBy, hprepare] at hprepares
    rw [hrun]
    exact hprepares
  · rw [Action.PreparesBy, hprepare] at hprepares
    obtain ⟨xs, hlead, hedit⟩ := hprepares
    rcases hcases with ⟨f, hrun⟩ | ⟨t, n, ht, hn⟩
    · rw [hrun]
      exact hlead.trans (.of_sheds xs (.refl _))
    · obtain ⟨rest, hrest, hput⟩ := Workspace.exists_perm_of_lookup ht
      rw [run_act hprepare ht hn]
      cases hedited : edit.run.run ⟨n, w'.supply⟩ with
      | mk r h =>
        obtain ⟨w'', gone, hback, hsupply, hgone⟩ := exists_run_putBack (w := { w' with supply := h.supply }) ht hrest
          hput r (t.setAt path h.value)
        have hedits : Leads (w'.holdings.plus xs) w''.holdings := by
          have hstart : (Workspace.thingsOf w'.trees ++ xs).Perm (.tree t :: xs ++ rest) :=
            (hrest.append_right xs).trans (List.perm_append_comm.cons _)
          have hend : Leads ⟨h.supply, .tree (t.setAt path h.value) :: thingsOf r ++ rest⟩ w''.holdings := by
            rw [Workspace.holdings, hsupply]
            exact .of_sheds _ hgone
          exact (Leads.of_perm hstart).trans (((leads_edit hedit hn hedited).frame rest).trans hend)
        rw [hback]
        cases r with
        | error e => exact hlead.trans hedits
        | ok reply =>
          rw [← plus_nil w''.holdings] at hedits
          exact hlead.trans hedits

/-- **Each step makes calls.** -/
theorem plays_run (step : Step) (w : Workspace) : Plays Workspace.holdings [] (fun _ => []) step.run w := by
  cases step with
  | act name path action => exact plays_act name path action w
  | store name node =>
    exact (node.plays_make w).bind fun t w' _ => (Work.plays_put name t w').bind fun _ _ _ => plays_pure .refl
  | join name items =>
    refine (ItemRecipe.plays_mapM_make items w).bind fun items w' _ => ?_
    refine (Work.plays_drawing (plays_call (c := .join items) rfl rfl w'.supply)).bind fun t w'' _ => ?_
    exact (Work.plays_put name t w'').bind fun _ _ _ => plays_pure .refl
  | detach source first rest =>
    refine (Work.plays_take source w).bind fun t w' _ => ?_
    cases ht : t.detachFirst with
    | error e => exact plays_fail (s := w') rfl
    | ok halves =>
      obtain ⟨f, r⟩ := halves
      have hlead : Leads ⟨w'.supply, [.tree t]⟩ ⟨w'.supply, [.tree f, .tree r]⟩ := by
        refine Leads.call (c := .detachFirst t) (r := .ok [.tree f, .tree r]) ?_
        rw [Call.run, ht]
        rfl
      refine Plays.after (t := w') (a := (f, r)) rfl (hlead.frame_left _) ?_
      refine ((Work.plays_put first f w').frame [.tree r]).bind fun _ w'' _ => ?_
      exact (Work.plays_put rest r w'').bind fun _ _ _ => plays_pure .refl
  | regroup name g =>
    refine (Work.plays_take name w).bind fun t w' _ => ?_
    have hlead : Leads ⟨w'.supply, [.tree t]⟩ ⟨w'.supply, [.tree (t.regroup g)]⟩ :=
      Leads.call (c := .regroup g t) (r := .ok _) rfl
    have hregroup : Plays Workspace.holdings [.tree t] (fun u => [.tree u]) (pure (t.regroup g) : Work _) w' :=
      plays_pure hlead
    exact hregroup.bind fun u w'' _ => (Work.plays_put name u w'').bind fun _ _ _ => plays_pure .refl

end Step

/-! ## Runs of steps -/

namespace Workspace

/-- The workspace after some steps, whether they fail or not. -/
def after (steps : List Step) (w : Workspace) : Workspace := steps.foldl (fun w step => (step.run.run.run w).2) w

/-- The identities in a workspace. -/
def ids (w : Workspace) : List Id := w.holdings.ids

theorem leads_step (step : Step) (w : Workspace) : Leads w.holdings (step.run.run.run w).2.holdings := by
  have hplays := step.plays_run w
  rw [Plays, plus_nil] at hplays
  split at hplays
  · next reply w' hr =>
    rw [hr, ← plus_nil w'.holdings]
    exact hplays
  · next f w' hr =>
    rw [hr]
    exact hplays

theorem leads_after (steps : List Step) (w : Workspace) : Leads w.holdings (w.after steps).holdings := by
  induction steps generalizing w with
  | nil => exact .refl
  | cons step steps ih => exact (leads_step step w).trans (ih _)

/-- **Identity in a workspace.** After any steps from an empty workspace, whether they fail or not, the identities in it
are distinct, and one that was there and is gone does not come back. -/
theorem identity_after (steps : List Step) :
    (after steps {}).ids.Nodup ∧
      ∀ more later, ∀ i ∈ (after steps {}).ids, i ∉ (after (steps ++ more) {}).ids →
        i ∉ (after (steps ++ more ++ later) {}).ids := by
  have hsound (steps : List Step) : (holdings (after steps {})).Sound := (leads_after steps {}).sound sound_empty
  have hafter (steps more : List Step) : after (steps ++ more) {} = (after steps {}).after more := List.foldl_append
  refine ⟨(hsound steps).nodup, fun more later i hi hgone hback => ?_⟩
  rw [hafter (steps ++ more)] at hback
  rcases (leads_after later (after (steps ++ more) {})).mem_or_le hback with hmem | hle
  · exact hgone hmem
  · have hlt := (hsound steps).drawn i hi
    have hgrown := (leads_after more (after steps {})).le
    rw [← hafter] at hgrown
    exact Nat.not_le_of_lt (Nat.lt_of_lt_of_le hlt hgrown) hle

end Workspace
end TermTree
