/-
Identities along a run. A program starts with nothing and makes calls, in any order and on anything that it then
holds (`Reaches`). What one call does to the identities held is the same for all calls: they are those from before
and fresh ones, in any order, without some (`Step.ids`). So the identities held are distinct and below the supply
all along (`Reaches.sound`), and one that is held later was held before or is drawn later (`Reaches.mem_or_le`).
Hence an identity stands for one occurrence as long as that is held, and for none afterwards
(`identity_of_reaches`).
-/
import TermTree.Proofs.Identity.Call

namespace TermTree

/-- What a program holds, and the supply of identities. -/
structure Holdings where
  supply : Supply := {}
  things : List (Thing Occurrence) := []

namespace Holdings

def occurrences (s : Holdings) : List Occurrence := s.things.flatMap Thing.carried

def ids (s : Holdings) : List Id := s.occurrences.map (·.id)

/-- One call. What it takes is held, and what comes back is held afterwards, beside the rest. -/
inductive Step (s : Holdings) : Call → Except Error (List (Thing Occurrence)) → Holdings → Prop where
  | call {c : Call} {rest : List (Thing Occurrence)} {outcome : Except Error (List (Thing Occurrence))}
      {supply : Supply} : s.things.Perm (c.taken ++ rest) → c.run.run.run s.supply = (outcome, supply) →
      Step s c outcome ⟨supply, c.back outcome ++ rest⟩

theorem Step.of_ok {c : Call} {things given rest : List (Thing Occurrence)} {supply supply' : Supply}
    (hp : things.Perm (c.taken ++ rest)) (hrun : c.run.run.run supply = (.ok given, supply')) :
    Step ⟨supply, things⟩ c (.ok given) ⟨supply', given ++ rest⟩ := .call hp hrun

/-- Any number of calls. -/
inductive Reaches (s : Holdings) : Holdings → Prop where
  | refl : Reaches s s
  | step {t u : Holdings} {c : Call} {outcome : Except Error (List (Thing Occurrence))} :
      Reaches s t → Step t c outcome u → Reaches s u

variable {r s t : Holdings} {c : Call} {outcome : Except Error (List (Thing Occurrence))}

/-! ## One call -/

theorem perm_occurrences {xs rest : List (Thing Occurrence)} (h : s.things.Perm (xs ++ rest)) :
    s.occurrences.Perm (xs.flatMap Thing.carried ++ rest.flatMap Thing.carried) := by
  rw [← List.flatMap_append]
  exact h.flatMap_right Thing.carried

/-- A call that is no edit moves occurrences, and discards only those that it is to discard. -/
theorem Step.moved (h : Step s c outcome t) (hc : c.isEdit = false) :
    Moved (c.Discards outcome) s.supply t.supply s.occurrences t.occurrences := by
  cases h with
  | @call rest _ supply hp hrun =>
    have hmoves := Call.moves hc s.supply
    rw [hrun] at hmoves
    cases outcome with
    | ok given =>
      refine (hmoves.frame (rest.flatMap Thing.carried)).of_perm (perm_occurrences hp).symm (.of_eq ?_)
      rw [occurrences, List.flatMap_append]
      rfl
    | error e =>
      have hoccs := perm_occurrences hp
      rw [Call.taken, List.flatMap_append] at hoccs
      refine .of_sheds hmoves ⟨c.passed.flatMap Thing.carried, ?_, fun a ha => ha⟩
      refine .trans ?_ hoccs.symm
      rw [occurrences, Call.back, List.flatMap_append, List.append_assoc, List.append_assoc]
      exact .append_left _ List.perm_append_comm

/-- An edit keeps all identities in their places. -/
theorem Step.edited (h : Step s c outcome t) (hc : c.isEdit = true) :
    s.supply.next ≤ t.supply.next ∧ ∃ given rest, outcome = .ok given ∧ s.things.Perm (c.taken ++ rest) ∧
      t.things = given ++ rest ∧ given.map (Thing.map (·.id)) = c.taken.map (Thing.map (·.id)) := by
  cases h with
  | @call rest _ supply hp hrun =>
    obtain ⟨given, s', hgiven, hle, hids⟩ := Call.run_of_isEdit hc s.supply
    rw [hgiven] at hrun
    cases hrun
    exact ⟨hle, given, rest, rfl, hp, rfl, hids⟩

theorem map_id_flatMap_carried (xs : List (Thing Occurrence)) :
    (xs.flatMap Thing.carried).map (·.id) = (xs.map (Thing.map (·.id))).flatMap Thing.carried := by
  simp only [List.map_flatMap, List.flatMap_map, Thing.carried_map]

/-- What any call does to the identities that are held. -/
theorem Step.ids (h : Step s c outcome t) :
    ∃ new, s.supply.Fresh t.supply new ∧ Sheds (fun _ => True) (s.ids ++ new.map (·.id)) t.ids := by
  cases hc : c.isEdit with
  | false =>
    obtain ⟨new, hfresh, hsheds⟩ := h.moved hc
    refine ⟨new, hfresh, ?_⟩
    have hids := hsheds.map (·.id)
    rwa [List.map_append] at hids
  | true =>
    obtain ⟨hle, given, rest, -, hp, hthings, hids⟩ := h.edited hc
    refine ⟨[], .nil hle, .of_perm ?_⟩
    have ht : t.ids = (c.taken.flatMap Thing.carried ++ rest.flatMap Thing.carried).map (·.id) := by
      rw [Holdings.ids, occurrences, hthings, List.flatMap_append, List.map_append, map_id_flatMap_carried, hids,
        ← map_id_flatMap_carried, List.map_append]
    rw [ht, List.map_nil, List.append_nil]
    exact ((perm_occurrences hp).map _).symm

/-! ## Runs -/

/-- The identities held are distinct, and none of them will be drawn again. -/
structure Sound (s : Holdings) : Prop where
  nodup : s.ids.Nodup
  drawn : ∀ i ∈ s.ids, i < s.supply.next

theorem Step.le (h : Step s c outcome t) : s.supply.next ≤ t.supply.next := by
  obtain ⟨_, hfresh, -⟩ := h.ids
  exact hfresh.le

theorem Step.mem_or_le (h : Step s c outcome t) {i : Id} (hi : i ∈ t.ids) : i ∈ s.ids ∨ s.supply.next ≤ i := by
  obtain ⟨new, hfresh, hsheds⟩ := h.ids
  refine (List.mem_append.1 (hsheds.subset hi)).imp_right fun hnew => ?_
  obtain ⟨a, ha, rfl⟩ := List.mem_map.1 hnew
  exact (hfresh.drawn a ha).1

theorem Step.sound (h : Step s c outcome t) (hs : s.Sound) : t.Sound := by
  obtain ⟨new, hfresh, hsheds⟩ := h.ids
  have hbelow : ∀ i ∈ new.map (·.id), s.supply.next ≤ i ∧ i < t.supply.next := by
    intro i hi
    obtain ⟨a, ha, rfl⟩ := List.mem_map.1 hi
    exact hfresh.drawn a ha
  constructor
  · refine hsheds.nodup (List.nodup_append.2 ⟨hs.nodup, hfresh.nodup, fun i hi j hj => ?_⟩)
    exact Nat.ne_of_lt (Nat.lt_of_lt_of_le (hs.drawn i hi) (hbelow j hj).1)
  · intro i hi
    rcases List.mem_append.1 (hsheds.subset hi) with hi | hi
    · exact Nat.lt_of_lt_of_le (hs.drawn i hi) h.le
    · exact (hbelow i hi).2

theorem Reaches.sound (h : Reaches s t) (hs : s.Sound) : t.Sound := by
  induction h with
  | refl => exact hs
  | step _ hstep ih => exact hstep.sound ih

theorem Reaches.le (h : Reaches s t) : s.supply.next ≤ t.supply.next := by
  induction h with
  | refl => exact Nat.le_refl _
  | step _ hstep ih => exact Nat.le_trans ih hstep.le

theorem Reaches.mem_or_le (h : Reaches s t) {i : Id} (hi : i ∈ t.ids) : i ∈ s.ids ∨ s.supply.next ≤ i := by
  induction h with
  | refl => exact .inl hi
  | step hreach hstep ih =>
    rcases hstep.mem_or_le hi with hi | hle
    · exact ih hi
    · exact .inr (Nat.le_trans hreach.le hle)

theorem sound_empty : Sound {} := ⟨.nil, by simp [ids, occurrences]⟩

/-- **An identity stands for one occurrence and is never given again.** On every run from nothing the identities
held are distinct, and one that was held and is not held any more is not held ever after. Whatever the next call
is, it moves occurrences as they are and discards none but those that it is to discard, or it edits terms and keeps
every identity in its place; and a copy is as its original, under identities that were never held before. -/
theorem identity_of_reaches {s : Holdings} (hs : Reaches {} s) :
    s.ids.Nodup ∧
    (∀ r t, Reaches {} r → Reaches r s → Reaches s t → ∀ i ∈ r.ids, i ∉ s.ids → i ∉ t.ids) ∧
    ∀ c outcome t, Step s c outcome t →
      (c.isEdit = false → ∀ a ∈ s.occurrences, ¬ c.Discards outcome a → a ∈ t.occurrences) ∧
      (c.isEdit = true → ∃ given rest, outcome = .ok given ∧ s.things.Perm (c.taken ++ rest) ∧
        t.things = given ++ rest ∧ given.map (Thing.map (·.id)) = c.taken.map (Thing.map (·.id))) ∧
      ∀ o, c = .copy o → ∃ k, outcome = .ok [o.holder, k] ∧ k.Alike o.thing ∧
        ∀ r, Reaches {} r → Reaches r s → ∀ a ∈ k.carried, a.id ∉ r.ids := by
  refine ⟨(hs.sound sound_empty).nodup, ?_, fun c outcome t h => ⟨?_, ?_, ?_⟩⟩
  · intro r t hr hrs hst i hir his hit
    rcases hst.mem_or_le hit with hi | hle
    · exact his hi
    · -- whatever was held before this point is below the supply
      have hlt := (hr.sound sound_empty).drawn i hir
      exact Nat.not_le_of_lt (Nat.lt_of_lt_of_le hlt hrs.le) hle
  · intro hc a ha hkept
    obtain ⟨new, -, hsheds⟩ := h.moved hc
    exact hsheds.mem (List.mem_append_left new ha) hkept
  · intro hc
    exact (h.edited hc).2
  · rintro o rfl
    cases h with
    | @call rest _ supply hp hrun =>
      obtain ⟨k, supply', hcopy, halike, hfresh⟩ := Call.run_copy o s.supply
      rw [hcopy] at hrun
      cases hrun
      refine ⟨k, rfl, halike, fun r hr hrs a ha hmem => ?_⟩
      have hlt := (hr.sound sound_empty).drawn a.id hmem
      exact Nat.not_le_of_lt (Nat.lt_of_lt_of_le hlt hrs.le) (hfresh.drawn a ha).1

/-- A leaf is read and copied, and the original dropped. Its identity does not come back, whatever is called
next. -/
theorem identity_of_dropped :
    ∃ s t : Holdings, Reaches {} s ∧ Reaches s t ∧ s.ids = [0, 1] ∧ t.ids = [1] ∧ ∀ u, Reaches t u → 0 ∉ u.ids := by
  have hread : Step {} (.readLeaf {} ['a']) (.ok [.tree (.leaf {} ⟨0, ⟨['a'], [], {}⟩⟩)])
      ⟨⟨1⟩, [.tree (.leaf {} ⟨0, ⟨['a'], [], {}⟩⟩)]⟩ := .of_ok (.refl []) rfl
  have hcopy : Step ⟨⟨1⟩, [.tree (.leaf {} ⟨0, ⟨['a'], [], {}⟩⟩)]⟩
      (.copy (.node ⟨.leaf {} ⟨0, ⟨['a'], [], {}⟩⟩, [], _, rfl⟩))
      (.ok [.tree (.leaf {} ⟨0, ⟨['a'], [], {}⟩⟩), .tree (.leaf {} ⟨1, ⟨['a'], [], {}⟩⟩)])
      ⟨⟨2⟩, [.tree (.leaf {} ⟨0, ⟨['a'], [], {}⟩⟩), .tree (.leaf {} ⟨1, ⟨['a'], [], {}⟩⟩)]⟩ := by
    refine .of_ok (.refl _) ?_
    rw [Call.run, Original.copy, Tree.copy, Tree.forget_leaf]
    rfl
  have hdrop : Step ⟨⟨2⟩, [.tree (.leaf {} ⟨0, ⟨['a'], [], {}⟩⟩), .tree (.leaf {} ⟨1, ⟨['a'], [], {}⟩⟩)]⟩
      (.drop (.tree (.leaf {} ⟨0, ⟨['a'], [], {}⟩⟩))) (.ok []) ⟨⟨2⟩, [.tree (.leaf {} ⟨1, ⟨['a'], [], {}⟩⟩)]⟩ :=
    .of_ok (.refl _) rfl
  have hs := (Reaches.refl.step hread).step hcopy
  have ht := Reaches.refl.step hdrop
  have hids : Holdings.ids ⟨⟨2⟩, [.tree (.leaf {} ⟨0, ⟨['a'], [], {}⟩⟩), .tree (.leaf {} ⟨1, ⟨['a'], [], {}⟩⟩)]⟩ =
      [0, 1] := by simp [Holdings.ids, occurrences, Thing.carried]
  have hids' : Holdings.ids ⟨⟨2⟩, [.tree (.leaf {} ⟨1, ⟨['a'], [], {}⟩⟩)]⟩ = [1] := by
    simp [Holdings.ids, occurrences, Thing.carried]
  obtain ⟨-, hgone, -⟩ := identity_of_reaches (hs.step hdrop)
  exact ⟨_, _, hs, ht, hids, hids', fun u hu => hgone _ u hs ht hu 0 (by simp [hids]) (by simp [hids'])⟩

end Holdings
end TermTree
