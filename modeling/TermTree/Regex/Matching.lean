/-
Matching a regular expression. `outcomes` lists the places where a match can end, the preferred one
first: earlier choices before later ones, and more or fewer repetitions as the repetition asks. Of
several ways to reach one position only the preferred one is kept, since what can follow depends on
the position alone; so the list never outgrows the text. Each place is reached by covering the text up to it
(`reaches_of_mem_outcomes`), so a match cuts the text into three (`eq_append_of_search?`).
-/
import Std.Data.HashSet
import TermTree.Pattern
import TermTree.Regex.Expr

namespace TermTree.Regex

/-- A place in a text that is being matched. -/
structure Place where
  /-- How many characters lie before it. -/
  index : Nat
  /-- The character right before it. -/
  before : Option Char
  /-- The text behind it. -/
  rest : Text
  /-- The texts of the groups that were closed, the last one first. -/
  groups : List (Nat × Text)
  deriving DecidableEq, Repr

/-- The places without those that an earlier one shares its position with; `seen` are positions that were
there before. -/
def dropSeen (seen : Std.HashSet Nat) : List Place → List Place
  | [] => []
  | p :: ps => if seen.contains p.index then dropSeen seen ps else p :: dropSeen (seen.insert p.index) ps

/-- Keeps of each position in a text the first way to reach it. -/
def preferFirst : List Place → List Place
  | [] => []
  | [p] => [p]
  | ps => dropSeen {} ps

/-- The places that a repetition has reached, the last one first, and the positions that it was followed from. -/
structure Swept where
  reached : List Place := []
  seen : Std.HashSet Nat := {}

/-- Repeats `step` from `p` on, at most `fuel` times. From one position a repetition is followed only once,
and a step that does not move ends it. -/
def sweep (step : Place → List Place) (greedy : Bool) : Nat → Place → Swept → Swept
  | 0, p, s => { s with reached := p :: s.reached }
  | fuel + 1, p, s =>
    if s.seen.contains p.index then s
    else
      let ahead := step p
      let stays := ahead.any (·.index == p.index)
      let s := { s with seen := s.seen.insert p.index }
      let s := if greedy then s else { s with reached := p :: s.reached }
      let s := ahead.foldl
        (fun s q =>
          if q.index != p.index then sweep step greedy fuel q s
          else if greedy then { s with reached := q :: s.reached }
          else s)
        s
      if greedy && !stays then { s with reached := p :: s.reached } else s

/-- Whether a place lies between a word character and something else. -/
def Place.isWordBoundary (p : Place) : Bool :=
  p.before.any Unicode.isWordChar != p.rest.head?.any Unicode.isWordChar

/-- The places where a match of the expression that begins at a place can end, the preferred first. -/
def outcomes (ignoreCase : Bool) : Expr → Place → List Place
  | .empty, p => [p]
  | .one set, p =>
    match p.rest with
    | [] => []
    | c :: rest =>
      if set.holds ignoreCase c then [{ p with index := p.index + 1, before := some c, rest }] else []
  | .start, p => if p.before.isNone then [p] else []
  | .finish, p => if p.rest.isEmpty then [p] else []
  | .wordBoundary outside, p => if outside != p.isWordBoundary then [p] else []
  | .seq a b, p => preferFirst ((outcomes ignoreCase a p).flatMap (outcomes ignoreCase b))
  | .alt a b, p => preferFirst (outcomes ignoreCase a p ++ outcomes ignoreCase b p)
  | .star greedy a, p => (sweep (outcomes ignoreCase a) greedy (p.rest.length + 1) p {}).reached.reverse
  | .group index a, p =>
    (outcomes ignoreCase a p).map fun q =>
      { q with groups := (index, p.rest.take (q.index - p.index)) :: q.groups }

/-- The leftmost match in `t`, where `previous` is the character before `t`. -/
def search? (ignoreCase : Bool) (e : Expr) (previous : Option Char) (t : Text) : Option Found :=
  match (outcomes ignoreCase e ⟨0, previous, t, []⟩).head? with
  | some p => some { before := [], covered := t.take p.index, behind := p.rest, groups := p.groups }
  | none =>
    match t with
    | [] => none
    | c :: t => (search? ignoreCase e (some c) t).map fun found => { found with before := c :: found.before }

/-! ## A match lies in the text -/

/-- `q` is a place to which some text is covered from `p` on. -/
def Place.Reaches (p q : Place) : Prop := ∃ covered, p.rest = covered ++ q.rest ∧ q.index = p.index + covered.length

namespace Place.Reaches
variable {p q r : Place}

theorem refl (p : Place) : p.Reaches p := ⟨[], by simp⟩

theorem trans (hpq : p.Reaches q) (hqr : q.Reaches r) : p.Reaches r := by
  obtain ⟨s, hs, hi⟩ := hpq
  obtain ⟨u, hu, hj⟩ := hqr
  exact ⟨s ++ u, by rw [hs, hu, List.append_assoc], by rw [hj, hi, List.length_append, Nat.add_assoc]⟩

end Place.Reaches

theorem mem_of_mem_dropSeen {seen : Std.HashSet Nat} {ps : List Place} {p : Place} (h : p ∈ dropSeen seen ps) :
    p ∈ ps := by
  induction ps generalizing seen with
  | nil => exact h
  | cons q ps ih =>
    rw [dropSeen] at h
    split at h
    · exact List.mem_cons_of_mem q (ih h)
    · rcases List.mem_cons.1 h with rfl | h
      · exact List.mem_cons_self
      · exact List.mem_cons_of_mem q (ih h)

theorem mem_of_mem_preferFirst {ps : List Place} {p : Place} (h : p ∈ preferFirst ps) : p ∈ ps := by
  rw [preferFirst.eq_def] at h
  split at h
  · exact h
  · exact h
  · exact mem_of_mem_dropSeen h

/-- All places that a repetition has reached lie behind `start`. -/
def Swept.From (start : Place) (s : Swept) : Prop := ∀ p ∈ s.reached, start.Reaches p

theorem Swept.From.cons {start p : Place} {s : Swept} (hs : s.From start) (hp : start.Reaches p) :
    Swept.From start { s with reached := p :: s.reached } := by
  intro q hq
  rcases List.mem_cons.1 hq with rfl | hq
  · exact hp
  · exact hs q hq

theorem from_sweep {step : Place → List Place} (hstep : ∀ p, ∀ q ∈ step p, p.Reaches q) (greedy : Bool) (fuel : Nat)
    {start p : Place} {s : Swept} (hp : start.Reaches p) (hs : s.From start) :
    (sweep step greedy fuel p s).From start := by
  induction fuel generalizing p s with
  | zero => exact hs.cons hp
  | succ fuel ih =>
    rw [sweep]
    split
    · exact hs
    · have hseen : Swept.From start { s with seen := s.seen.insert p.index } := hs
      have hbefore : Swept.From start (if greedy then { s with seen := s.seen.insert p.index }
          else { s with seen := s.seen.insert p.index, reached := p :: s.reached }) := by
        split
        · exact hseen
        · exact hseen.cons hp
      have hahead := List.foldlRecOn (step p)
        (fun s q =>
          if q.index != p.index then sweep step greedy fuel q s
          else if greedy then { s with reached := q :: s.reached }
          else s)
        hbefore fun s hs q hq => by
          have hq : start.Reaches q := hp.trans (hstep p q hq)
          split
          · exact ih hq hs
          · split
            · exact hs.cons hq
            · exact hs
      dsimp only
      split
      · exact hahead.cons hp
      · exact hahead

/-- A match that begins at a place covers text from there on. -/
theorem reaches_of_mem_outcomes (ignoreCase : Bool) (e : Expr) {p q : Place} (h : q ∈ outcomes ignoreCase e p) :
    p.Reaches q := by
  induction e generalizing p q with
  | empty =>
    obtain rfl := List.mem_singleton.1 h
    exact .refl _
  | one set =>
    rw [outcomes] at h
    split at h
    · contradiction
    · next c rest hrest =>
      split at h
      · obtain rfl := List.mem_singleton.1 h
        exact ⟨[c], by simp [hrest]⟩
      · contradiction
  | start | finish | wordBoundary =>
    rw [outcomes] at h
    split at h
    · obtain rfl := List.mem_singleton.1 h
      exact .refl _
    · contradiction
  | seq a b iha ihb =>
    obtain ⟨r, hr, hq⟩ := List.mem_flatMap.1 (mem_of_mem_preferFirst h)
    exact (iha hr).trans (ihb hq)
  | alt a b iha ihb =>
    rcases List.mem_append.1 (mem_of_mem_preferFirst h) with h | h
    · exact iha h
    · exact ihb h
  | star greedy a ih =>
    have hnone : Swept.From p {} := fun _ hq => nomatch hq
    exact from_sweep (fun _ _ => ih) greedy _ (.refl p) hnone q (List.mem_reverse.1 h)
  | group index a ih =>
    obtain ⟨r, hr, rfl⟩ := List.mem_map.1 h
    exact (ih hr : p.Reaches r)

theorem Place.Reaches.take_append {previous : Option Char} {t : Text} {p : Place}
    (h : Place.Reaches ⟨0, previous, t, []⟩ p) : t.take p.index ++ p.rest = t := by
  obtain ⟨covered, hrest, hindex⟩ := h
  have ht : t = covered ++ p.rest := hrest
  rw [ht, show p.index = covered.length by simpa using hindex, List.take_left]

/-- A text in which there is a match is what lies before it, what it covers and what lies behind it. -/
theorem eq_append_of_search? {ignoreCase : Bool} {e : Expr} {previous : Option Char} {t : Text} {found : Found}
    (h : search? ignoreCase e previous t = some found) : t = found.before ++ found.covered ++ found.behind := by
  induction t generalizing previous found with
  | nil =>
    rw [search?] at h
    split at h
    · next p hp =>
      cases h
      exact (reaches_of_mem_outcomes ignoreCase e (List.mem_of_head? hp)).take_append.symm
    · contradiction
  | cons c t ih =>
    rw [search?] at h
    split at h
    · next p hp =>
      cases h
      exact (reaches_of_mem_outcomes ignoreCase e (List.mem_of_head? hp)).take_append.symm
    · obtain ⟨found', hfound, rfl⟩ := Option.map_eq_some_iff.1 h
      exact congrArg (c :: ·) (ih hfound)

end TermTree.Regex
