/-
Removal and search in place. Children are gone through by an index that stays where one is taken out (`headLoop`), or
kept one by one while a counter goes along (`retain`), and a leaf is searched for with a single stack of indices, on
which each failed branch leaves no trace (`search`). They come to what is done with the list of children as a whole
(`dropHeads_eq_headLoop`, `retainIn_eq`, `findPath?_eq_search`).
-/
import TermTree.Tree.Path
import TermTree.Tree.Removal

namespace TermTree.Tree
variable {α : Type} {test : α → Bool}

/-! ## Taking out first leaves -/

/-- Goes through children in place from an index on; `removed` leaves were removed before. -/
def headLoop (test : α → Bool) (removed index : Nat) (cs : List (Tree α)) : Nat × List (Tree α) :=
  if _ : index < cs.length then
    match cs[index] with
    | leaf _ a =>
      if test a then headLoop test (removed + 1) index (cs.eraseIdx index)
      else headLoop test removed (index + 1) cs
    | group g ds =>
      match dropFirst? test (group g ds) with
      | some c => headLoop test (removed + 1) (index + 1) (cs.set index c)
      | none => headLoop test removed (index + 1) cs
  else (removed, cs)
termination_by cs.length - index
decreasing_by
  · rw [List.length_eraseIdx_of_lt ‹_›]
    omega
  · omega
  · rw [List.length_set]
    omega
  · omega

/-- In front of the index stands what is left of the children that were gone through. -/
theorem headLoop_append (removed : Nat) (before cs : List (Tree α)) :
    headLoop test removed before.length (before ++ cs) =
      (removed + total ((cs.map (dropHead test)).map (·.1)), before ++ (cs.map (dropHead test)).flatMap (·.2)) := by
  induction cs generalizing removed before with
  | nil =>
    rw [headLoop, dif_neg (by simp)]
    simp
  | cons c cs ih =>
    -- the loop goes on behind what is left of `c`
    have hnext (removed : Nat) (c : Tree α) : headLoop test removed (before.length + 1) (before ++ c :: cs) =
        (removed + total ((cs.map (dropHead test)).map (·.1)), before ++ c :: (cs.map (dropHead test)).flatMap (·.2)) := by
      have hbehind := ih removed (before ++ [c])
      simpa only [List.length_append, List.length_singleton, List.append_assoc, List.singleton_append] using hbehind
    rw [headLoop, dif_pos (by simp)]
    simp only [List.getElem_append_right (Nat.le_refl before.length), Nat.sub_self, List.getElem_cons_zero]
    cases c with
    | leaf g a =>
      have herase : (before ++ leaf g a :: cs).eraseIdx before.length = before ++ cs := by
        rw [List.eraseIdx_append_of_length_le (Nat.le_refl _), Nat.sub_self, List.eraseIdx_cons_zero]
      by_cases hpass : test a = true
      · simp [hpass, dropHead, herase, ih, Nat.add_assoc]
      · simp [hpass, dropHead, hnext]
    | group g ds =>
      cases hdrop : dropFirst? test (group g ds) with
      | none => simp [hdrop, dropHead, hnext]
      | some d => simp [hdrop, dropHead, hnext, Nat.add_assoc]

/-- **The loop takes out what is taken out child by child.** -/
theorem dropHeads_eq_headLoop (g : Grammar) (cs : List (Tree α)) :
    (group g cs).dropHeads test = ((headLoop test 0 0 cs).1, group g (headLoop test 0 0 cs).2) := by
  have hloop : headLoop test 0 ([] : List (Tree α)).length ([] ++ cs) = _ := headLoop_append 0 [] cs
  rw [List.nil_append, List.length_nil, Nat.zero_add] at hloop
  rw [hloop]
  rfl

/-! ## Keeping leaves with a counter -/

mutual

/-- Removes the leaves below the root that pass the test, and counts them. -/
def retainIn (test : α → Bool) : Tree α → Nat × Tree α
  | leaf g a => (0, leaf g a)
  | group g cs =>
    let (removed, cs) := retain test 0 cs
    (removed, group g cs)

/-- Keeps what is to stay of the children, and counts on from `removed`. -/
def retain (test : α → Bool) (removed : Nat) : List (Tree α) → Nat × List (Tree α)
  | [] => (removed, [])
  | leaf g a :: cs =>
    if test a then retain test (removed + 1) cs
    else
      let (removed, cs) := retain test removed cs
      (removed, leaf g a :: cs)
  | group g ds :: cs =>
    let (inside, c) := retainIn test (group g ds)
    let (removed, cs) := retain test (removed + inside) cs
    (removed, c :: cs)

end

mutual

/-- **The counter counts the leaves that pass the test, and these are taken out.** -/
theorem retainIn_eq : ∀ t : Tree α, retainIn test t = (t.countLeaves test, t.dropLeaves test)
  | leaf g a => by rw [retainIn, countLeaves, dropLeaves]
  | group g cs => by
    rw [retainIn, retain_eq 0 cs, countLeaves, dropLeaves, Nat.zero_add]

theorem retain_eq (removed : Nat) : ∀ cs : List (Tree α), retain test removed cs =
    (removed + total (cs.map fun c => if c.isLeafWhere test then 1 else c.countLeaves test),
      cs.filterMap fun c => if c.isLeafWhere test then none else some (c.dropLeaves test))
  | [] => rfl
  | leaf g a :: cs => by
    have hleaf : (leaf g a).isLeafWhere test = test a := rfl
    rw [retain]
    split
    · next hpass => simp [retain_eq (removed + 1) cs, hleaf, hpass, Nat.add_assoc]
    · next hpass => simp [retain_eq removed cs, hleaf, hpass, countLeaves, dropLeaves]
  | group g ds :: cs => by
    have hgroup : (group g ds).isLeafWhere test = false := rfl
    rw [retain, retainIn_eq (group g ds)]
    simp [retain_eq (removed + (group g ds).countLeaves test) cs, hgroup, Nat.add_assoc]

end

/-! ## Searching with a stack -/

mutual

/-- Whether there is a leaf that passes the test. The stack holds the path from where the search began; it is left as it
is where the first such leaf is found. -/
def search (test : α → Bool) : Tree α → StateM Path Bool
  | leaf _ a => return test a
  | group _ cs => searchFrom test 0 cs

/-- The same of children of which the first has index `i`. -/
def searchFrom (test : α → Bool) (i : Nat) : List (Tree α) → StateM Path Bool
  | [] => return false
  | c :: cs => do
    modify (· ++ [i])
    if ← search test c then return true
    modify List.dropLast
    searchFrom test (i + 1) cs

end

theorem run_searchFrom_cons (stack : Path) (i : Nat) (c : Tree α) (cs : List (Tree α)) :
    (searchFrom test i (c :: cs)).run stack =
      match (search test c).run (stack ++ [i]) with
      | (true, stack) => (true, stack)
      | (false, stack) => (searchFrom test (i + 1) cs).run stack.dropLast := by
  rw [searchFrom]
  show ((if ((search test c).run (stack ++ [i])).1 then pure true else _ : StateM Path Bool).run
    ((search test c).run (stack ++ [i])).2) = _
  rcases (search test c).run (stack ++ [i]) with ⟨found, stack⟩
  cases found <;> rfl

/-- The stack after a search that came to the paths `ps`: the first of them stands on it, or it is as it was. -/
def searched (stack : Path) (ps : List Path) : Bool × Path :=
  match ps with
  | [] => (false, stack)
  | p :: _ => (true, stack ++ p)

mutual

/-- **A search that fails takes back all that it pushed**, and one that succeeds leaves the path of the first leaf. -/
theorem run_search (stack : Path) : ∀ t : Tree α, (search test t).run stack = searched stack (t.pathsWhere test)
  | leaf g a => by
    rw [search, pathsWhere]
    cases test a with
    | true => exact congrArg (Prod.mk true) (List.append_nil stack).symm
    | false => rfl
  | group g cs => run_searchFrom stack 0 cs

theorem run_searchFrom (stack : Path) (i : Nat) :
    ∀ cs : List (Tree α), (searchFrom test i cs).run stack = searched stack (pathsFrom test i cs)
  | [] => rfl
  | c :: cs => by
    have hc := run_search (stack ++ [i]) c
    have hcs := run_searchFrom stack (i + 1) cs
    rw [run_searchFrom_cons, hc, pathsFrom]
    cases pathsWhere test c with
    | nil => simpa [searched] using hcs
    | cons p ps => simp [searched]

end

/-- The path of a leaf is what a search for it leaves on the empty stack. -/
theorem findPath?_eq_search (id : Id) (t : Tree Occurrence) :
    t.findPath? id =
      if ((search (·.id == id) t).run []).1 then some ((search (·.id == id) t).run []).2 else none := by
  rw [findPath?, run_search]
  cases t.pathsWhere (·.id == id) <;> rfl

end TermTree.Tree
