/-
Recipes as runs of calls. The trees of a workspace are held, and so are those that a recipe has made or taken out.
Whatever a recipe makes, it makes by calls on what is held (`Plays`, one lemma for each kind of recipe); what commands
make of a term is an edit of terms (`CommandRecipe.termEdit`).
-/
import TermTree.Proofs.Identity.Playing
import TermTree.Proofs.Workspace.Step

namespace TermTree
open Holdings

/-! ## Commands -/

section
variable {σ α : Type}

theorem Editing.grows_drawing {d : Drawing α} (h : ∀ s, s.next ≤ (d.run.run s).2.next) :
    Grows (Editing.drawing d : Editing σ α).run := fun s => h s.supply

theorem Editing.grows_ofResult (r : Except Error α) : Grows (Editing.ofResult r : Editing σ α).run :=
  fun _ => Nat.le_refl _

theorem Editing.grows_pure (a : α) : Grows (pure a : Editing σ α).run := fun _ => Nat.le_refl _

end

theorem TermRecipe.plays_make (r : TermRecipe) (s : Supply) : Plays Supply.alone [] (fun a => [.single a]) r.make s := by
  cases r with
  | read g t => exact plays_call (c := .readTerm g t) rfl rfl s
  | build a => exact plays_call (c := .build a) rfl rfl s

theorem Occurrence.grows_read (g : Grammar) (t : Text) (s : Supply) :
    s.next ≤ ((Occurrence.read g t).run.run s).2.next := ((TermRecipe.read g t).plays_make s).le

theorem Command.grows_run (c : Command) : Grows c.run.run := by
  have hchange {α : Type} (f : Term → α × Term) : Grows (Occurrence.change f).run := fun _ => Nat.le_refl _
  have hheld {α : Type} {f : Occurrence → Editing Occurrence α} (hf : ∀ a, Grows (f a).run) :
      Grows (Editing.held >>= f).run := .except_bind (fun _ => Nat.le_refl _) hf
  have hadd (value delimiter : Text) : Grows (Occurrence.add value delimiter).run := by
    refine hheld fun a => ?_
    split <;> exact fun _ => Nat.le_refl _
  cases c with rw [run]
  | addIfAbsent value delimiter =>
    refine .except_bind (hheld fun a => ?_) fun _ => Editing.grows_pure _
    split
    · exact Editing.grows_pure _
    · exact .except_bind (hadd value delimiter) fun _ => Editing.grows_pure _
  | add value delimiter => exact .except_bind (hadd value delimiter) fun _ => Editing.grows_pure _
  | reread t =>
    refine .except_bind (hheld fun a => ?_) fun _ => Editing.grows_pure _
    exact .except_bind (Editing.grows_drawing (Occurrence.grows_read _ t)) fun _ _ => Nat.le_refl _
  | onlyValue delimiter =>
    exact hheld fun a => .except_bind (Editing.grows_ofResult _) fun _ => Editing.grows_pure _
  | equivalentToText t | coversText t =>
    refine hheld fun a => .except_bind (Editing.grows_drawing fun s => ?_) fun _ => Editing.grows_pure _
    exact (((TermRecipe.read a.term.grammar t).plays_make s).bind fun _ _ _ => plays_drop).le
  | setName | append | reverse | clear | handFirst | changeValues => exact hchange _
  | setNameIfEmpty | rename | renameByRules | takeFirst | takeAll =>
    exact .except_bind (hchange _) fun _ => Editing.grows_pure _
  | name | text | parameters | valuesOn | equivalent | identical | covers => exact hheld fun _ => Editing.grows_pure _

theorem CommandRecipe.grows_make {r : CommandRecipe} {make : Drawing Command} (h : r.make? = some make) (s : Supply) :
    s.next ≤ (make.run.run s).2.next := by
  cases r with
  | ready c =>
    cases h
    exact Nat.le_refl _
  | matching source command =>
    obtain ⟨pattern, -, rfl⟩ := Option.map_eq_some_iff.1 h
    exact Nat.le_refl _
  | byRules rules =>
    obtain ⟨compiled, -, hmake⟩ := Option.bind_eq_some_iff.1 h
    cases hmake
    exact Nat.le_refl _
  | comparing other command =>
    cases h
    exact ((other.plays_make s).bind fun _ _ _ => plays_drop).le

theorem CommandRecipe.grows_run (r : CommandRecipe) : Grows r.run := by
  rw [run]
  split
  · exact .pure _
  · next make hmake =>
    refine .bind (.except_bind (Editing.grows_drawing (grows_make hmake)) Command.grows_run) fun _ => .pure _

/-- Commands as an edit of terms. -/
def CommandRecipe.termEdit (commands : List CommandRecipe) : TermEdit Visits where
  run := rewrite commands
  grows _ s := (Grows.mapM fun c _ => c.grows_run : Grows (commands.mapM run)) ⟨_, s.supply⟩

/-! ## The trees of a workspace -/

namespace Workspace
variable {name : Text} {t : Tree Occurrence} {entries : List (Text × Tree Occurrence)}

/-- Named trees, as things. -/
def thingsOf (entries : List (Text × Tree Occurrence)) : List (Thing Occurrence) := entries.map fun entry => .tree entry.2

/-- A workspace holds its trees. -/
def holdings (w : Workspace) : Holdings := ⟨w.supply, thingsOf w.trees⟩

theorem exists_perm_entriesWith (name : Text) (t : Tree Occurrence) (entries : List (Text × Tree Occurrence)) :
    ∃ gone, (thingsOf (entriesWith name t entries) ++ gone).Perm (.tree t :: thingsOf entries) := by
  induction entries with
  | nil => exact ⟨[], .refl _⟩
  | cons entry entries ih =>
    rw [entriesWith]
    split
    · exact ⟨[.tree entry.2], List.perm_append_comm.cons _⟩
    · obtain ⟨gone, hgone⟩ := ih
      exact ⟨gone, (hgone.cons _).trans (.swap ..)⟩

/-- Where a tree has the name, it is the one that another takes the place of. -/
theorem exists_perm_of_lookup (h : entries.lookup name = some t) :
    ∃ rest, (thingsOf entries).Perm (.tree t :: rest) ∧
      ∀ u, (thingsOf (entriesWith name u entries)).Perm (.tree u :: rest) := by
  induction entries with
  | nil => contradiction
  | cons entry entries ih =>
    rw [List.lookup_cons] at h
    split at h
    · next heq =>
      cases h
      refine ⟨thingsOf entries, .refl _, fun u => .of_eq ?_⟩
      rw [entriesWith, if_pos (beq_iff_eq.1 heq).symm]
      rfl
    · next hne =>
      obtain ⟨rest, hrest, hput⟩ := ih h
      refine ⟨.tree entry.2 :: rest, (hrest.cons _).trans (.swap ..), fun u => ?_⟩
      rw [entriesWith, if_neg (Ne.symm (beq_eq_false_iff_ne.1 hne))]
      exact ((hput u).cons _).trans (.swap ..)

theorem exists_perm_of_erase (h : entries.lookup name = some t) :
    ∃ gone, (thingsOf (entries.filter (·.1 != name)) ++ [Thing.tree t] ++ gone).Perm (thingsOf entries) := by
  induction entries with
  | nil => contradiction
  | cons entry entries ih =>
    rw [List.lookup_cons] at h
    split at h
    · next heq =>
      cases h
      refine ⟨thingsOf (entries.filter fun e => !(e.1 != name)), ?_⟩
      have hsplit := (List.filter_append_perm (fun e : Text × Tree Occurrence => e.1 != name) entries).map
        fun e => Thing.tree e.2
      rw [List.map_append] at hsplit
      rw [List.filter_cons_of_neg (by simp [(beq_iff_eq.1 heq).symm]), List.append_assoc]
      exact List.perm_middle.trans (hsplit.cons _)
    · next hne =>
      obtain ⟨gone, hgone⟩ := ih h
      rw [List.filter_cons_of_pos (by simpa using Ne.symm (beq_eq_false_iff_ne.1 hne))]
      exact ⟨gone, hgone.cons _⟩

theorem lookup_entriesWith_self (name : Text) (t : Tree Occurrence) (entries : List (Text × Tree Occurrence)) :
    (entriesWith name t entries).lookup name = some t := by
  induction entries with
  | nil => simp [entriesWith]
  | cons entry entries ih =>
    rw [entriesWith]
    split
    · simp
    · next hne => rw [List.lookup_cons, beq_eq_false_iff_ne.2 (Ne.symm hne), ih]

theorem lookup_entriesWith_of_ne {name' : Text} (hne : name' ≠ name) (u : Tree Occurrence)
    (entries : List (Text × Tree Occurrence)) :
    (entriesWith name' u entries).lookup name = entries.lookup name := by
  induction entries with
  | nil => simp [entriesWith, Ne.symm hne]
  | cons entry entries ih =>
    rw [entriesWith]
    split
    · next heq =>
      subst heq
      rw [List.lookup_cons, List.lookup_cons, beq_eq_false_iff_ne.2 (Ne.symm hne)]
    · rw [List.lookup_cons, List.lookup_cons, ih]

/-- A copy is stored, and the tree it was made in put back under its name; where both have one name the copy is gone. -/
theorem exists_perm_store_put {rest : List (Thing Occurrence)} (h : entries.lookup name = some t)
    (hrest : (thingsOf entries).Perm (.tree t :: rest))
    (hput : ∀ u, (thingsOf (entriesWith name u entries)).Perm (.tree u :: rest)) (copyName : Text)
    (copy new : Tree Occurrence) :
    ∃ gone, (thingsOf (entriesWith name new (entriesWith copyName copy entries)) ++ gone).Perm
      (.tree new :: .tree copy :: rest) := by
  by_cases hname : copyName = name
  · subst hname
    obtain ⟨rest', hrest', hput'⟩ := exists_perm_of_lookup (lookup_entriesWith_self copyName copy entries)
    have hsame : rest'.Perm rest := (hrest'.symm.trans (hput copy)).cons_inv
    refine ⟨[.tree copy], ((hput' new).append_right _).trans ?_⟩
    exact (List.perm_append_comm.trans (hsame.cons _)).cons _
  · rw [← lookup_entriesWith_of_ne hname copy] at h
    obtain ⟨rest', hrest', hput'⟩ := exists_perm_of_lookup h
    obtain ⟨gone, hgone⟩ := exists_perm_entriesWith copyName copy entries
    have hsame : (rest' ++ gone).Perm (.tree copy :: rest) := by
      refine List.Perm.cons_inv (a := .tree t) ?_
      exact (hrest'.symm.append_right gone).trans (hgone.trans ((hrest.cons _).trans (.swap ..)))
    exact ⟨gone, ((hput' new).append_right gone).trans (hsame.cons _)⟩

end Workspace

/-! ## Making trees and items -/

namespace Work
variable {α : Type} {brought : List (Thing Occurrence)} {held : α → List (Thing Occurrence)}

theorem plays_drawing {d : Drawing α} {w : Workspace} (h : Plays Supply.alone brought held d w.supply) :
    Plays Workspace.holdings brought held (drawing d) w := h.of_drawing (run_drawing d w) rfl

theorem plays_put (name : Text) (t : Tree Occurrence) (w : Workspace) :
    Plays Workspace.holdings [.tree t] (fun _ => []) (put name t) w := by
  obtain ⟨gone, hgone⟩ := Workspace.exists_perm_entriesWith name t w.trees
  refine plays_of_ok rfl (.of_sheds gone ?_)
  rw [List.append_nil]
  exact hgone.trans (List.perm_append_singleton _ _).symm

theorem plays_take (name : Text) (w : Workspace) :
    Plays Workspace.holdings [] (fun t => [.tree t]) (take name) w := by
  cases ht : w.tree? name with
  | none => exact plays_fail (by rw [take, Outcome.run_bind_error (run_look_error ht)])
  | some t =>
    obtain ⟨gone, hgone⟩ := Workspace.exists_perm_of_erase ht
    have hrun : (take name).run.run w = (.ok t, w.erase name) := by
      rw [take, Outcome.run_bind_ok (run_look ht)]
      rfl
    refine plays_of_ok hrun (.of_sheds gone ?_)
    rw [List.append_nil]
    exact hgone

end Work

theorem TreeRecipe.plays_copy (name : Text) (path : Path) (w : Workspace) :
    Plays Workspace.holdings [] (fun t => [.tree t]) (TreeRecipe.copy name path).make w := by
  rw [make]
  cases ht : w.tree? name with
  | none => exact plays_fail (by rw [Outcome.run_bind_error (Work.run_look_error ht)])
  | some t =>
    cases hn : t.get? path with
    | none =>
      refine plays_fail (e := .noNode) ?_
      rw [Outcome.run_bind_ok (Work.run_look ht), Outcome.run_bind_error (Work.run_nodeAt_error hn w)]
    | some n =>
      obtain ⟨rest, hrest, -⟩ := Workspace.exists_perm_of_lookup ht
      have hcopy : Leads ⟨w.supply, .tree t :: rest⟩ ⟨_, _ :: _ :: rest⟩ :=
        (Leads.call (c := .copy (.node ⟨t, path, n, hn⟩)) (r := .ok _) rfl).frame rest
      refine plays_of_ok (t := { w with supply := (n.copy.run w.supply).2 }) (a := (n.copy.run w.supply).1) ?_ ?_
      · rw [Outcome.run_bind_ok (Work.run_look ht), Work.nodeAt_eq hn]
        rfl
      · refine (Leads.of_perm ?_).trans (hcopy.trans (.of_perm ?_))
        · rw [List.append_nil]
          exact hrest
        · exact (List.Perm.swap ..).trans ((hrest.symm.cons _).trans (List.perm_append_singleton _ _).symm)

mutual

theorem TreeRecipe.plays_make (w : Workspace) :
    ∀ r : TreeRecipe, Plays Workspace.holdings [] (fun t => [.tree t]) r.make w
  | .read g t => by
    rw [make]
    exact Work.plays_drawing (plays_call (c := .read g t) rfl rfl w.supply)
  | .readLeaf g t => by
    rw [make]
    exact Work.plays_drawing (plays_call (c := .readLeaf g t) rfl rfl w.supply)
  | .leaf a => by
    rw [make]
    exact Work.plays_drawing ((a.plays_make w.supply).bind fun b s _ => plays_pure (Leads.call (c := .leaf b) rfl))
  | .group g rs => by
    rw [make]
    exact (plays_makeAll w rs).bind fun cs w' _ => plays_pure (Leads.call (c := .group g cs) rfl)
  | .copy name path => plays_copy name path w
  | .take name => by
    rw [make]
    exact Work.plays_take name w

theorem TreeRecipe.plays_makeAll (w : Workspace) :
    ∀ rs : List TreeRecipe, Plays Workspace.holdings [] (fun ts => ts.map .tree) (makeAll rs) w
  | [] => by
    rw [makeAll]
    exact plays_pure .refl
  | r :: rs => by
    rw [makeAll]
    refine (plays_make w r).bind fun t w' _ => ?_
    exact ((plays_makeAll w' rs).frame [.tree t]).bind fun ts w'' _ => plays_pure (.of_perm List.perm_append_comm)

end

theorem Call.flatMap_itemThings (items : List Item) : (items.flatMap fun item => itemThings [item]) = itemThings items := by
  induction items with
  | nil => rfl
  | cons item items ih =>
    rw [List.flatMap_cons, ih]
    cases item <;> rfl

theorem ItemRecipe.plays_make (r : ItemRecipe) (w : Workspace) :
    Plays Workspace.holdings [] (fun item => Call.itemThings [item]) r.make w := by
  cases r with
  | text t => exact plays_pure .refl
  | tree r => exact (r.plays_make w).bind fun t w' _ => plays_pure .refl

theorem ItemRecipe.plays_mapM_make (rs : List ItemRecipe) (w : Workspace) :
    Plays Workspace.holdings [] Call.itemThings (rs.mapM make) w :=
  (Plays.mapM (fun r _ w => r.plays_make w) w).of_perm (.refl _) fun items => .of_eq (Call.flatMap_itemThings items)

/-- A selector holds nothing: the occurrence that one was made of is lost. -/
theorem SelectorRecipe.plays_make (r : SelectorRecipe) (s : Supply) :
    Plays Supply.alone [] (fun _ => []) r.make s := by
  cases r with
  | name t | test p => exact plays_pure .refl
  | term a => exact (a.plays_make s).bind fun _ _ _ => plays_drop

theorem SelectorRecipe.plays_mapM_make (rs : List SelectorRecipe) (w : Workspace) :
    Plays Workspace.holdings [] (fun _ => []) (rs.mapM fun r => Work.drawing r.make) w :=
  (Plays.mapM (fun r _ w => Work.plays_drawing (r.plays_make w.supply)) w).of_perm (.refl _)
    fun _ => .of_eq (List.flatMap_eq_nil_iff.2 fun _ _ => rfl)

end TermTree
