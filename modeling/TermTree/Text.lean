/-
Text is a list of characters: every cut between two of its elements is a cut between two
characters, so a reader that hands on the rest of its input can never stop inside one.

The module holds the few operations the readers and writers share: the size in bytes, stripping a
marker from the front, cutting at the first occurrence of a marker, and joining pieces. Their laws
say that cutting loses nothing (`eq_append_of_after?`, `eq_append_of_breakOn?`) and that a marker
is found exactly where it stands (`breakOn?_append`, `occursIn_iff`).
-/
namespace TermTree

/-- A text is the list of its characters. -/
abbrev Text := List Char

namespace Text

/-- The number of bytes `t` takes in UTF-8; offsets into a text count these. -/
def byteSize : Text → Nat
  | [] => 0
  | c :: t => c.utf8Size + byteSize t

/-- What follows `marker` at the front of a text, if the text starts with it. -/
def after? : Text → Text → Option Text
  | [], t => some t
  | _ :: _, [] => none
  | m :: marker, c :: t => if m = c then after? marker t else none

/-- The text before the first occurrence of `marker` in a text, and the text behind it. -/
def breakOn? (marker : Text) : Text → Option (Text × Text)
  | [] => (after? marker []).map fun rest => ([], rest)
  | c :: t =>
    match after? marker (c :: t) with
    | some rest => some ([], rest)
    | none => (breakOn? marker t).map fun (body, rest) => (c :: body, rest)

/-- Whether `piece` stands somewhere in `t`. -/
def occursIn (piece t : Text) : Bool := (breakOn? piece t).isSome

/-- A text with `new` in the place of the first occurrence of `piece`. -/
def replaceFirst (piece new t : Text) : Text :=
  match breakOn? piece t with
  | none => t
  | some (body, rest) => body ++ new ++ rest

/-- The pieces one after another, with `sep` between each two. -/
def joinWith (sep : Text) : List Text → Text
  | [] => []
  | [t] => t
  | t :: u :: ts => t ++ sep ++ joinWith sep (u :: ts)

/-! ## Size -/

@[simp] theorem byteSize_nil : byteSize [] = 0 := rfl

@[simp] theorem byteSize_cons (c : Char) (t : Text) : byteSize (c :: t) = c.utf8Size + byteSize t := rfl

@[simp] theorem byteSize_append (s t : Text) : byteSize (s ++ t) = byteSize s + byteSize t := by
  induction s with
  | nil => simp
  | cons c s ih => simp only [List.cons_append, byteSize_cons, ih, Nat.add_assoc]

/-! ## Markers -/

theorem after?_eq_some {marker t rest : Text} : after? marker t = some rest ↔ t = marker ++ rest := by
  induction marker generalizing t with
  | nil => simp [after?, eq_comm]
  | cons m marker ih =>
    cases t with
    | nil => simp [after?]
    | cons c t =>
      by_cases hmc : m = c
      · simp [after?, hmc, ih]
      · have hcm : c ≠ m := fun h => hmc h.symm
        simp [after?, hmc, hcm]

theorem eq_append_of_after? {marker t rest : Text} (h : after? marker t = some rest) : t = marker ++ rest :=
  after?_eq_some.1 h

@[simp] theorem after?_append (marker rest : Text) : after? marker (marker ++ rest) = some rest :=
  after?_eq_some.2 rfl

theorem after?_eq_none {marker t : Text} : after? marker t = none ↔ ¬ marker <+: t := by
  rw [← Option.not_isSome_iff_eq_none, Option.isSome_iff_exists]
  refine not_congr ⟨fun ⟨rest, h⟩ => ⟨rest, (eq_append_of_after? h).symm⟩, fun ⟨rest, h⟩ => ⟨rest, ?_⟩⟩
  rw [← h, after?_append]

theorem length_lt_of_after? {marker t rest : Text} (hm : marker ≠ []) (h : after? marker t = some rest) :
    rest.length < t.length := by
  have hpos := List.length_pos_iff.2 hm
  rw [eq_append_of_after? h, List.length_append]
  omega

/-! ## The first occurrence -/

theorem eq_append_of_breakOn? {marker t body rest : Text} (h : breakOn? marker t = some (body, rest)) :
    t = body ++ marker ++ rest := by
  induction t generalizing body with
  | nil =>
    simp only [breakOn?, Option.map_eq_some_iff, Prod.mk.injEq] at h
    obtain ⟨r, hr, rfl, rfl⟩ := h
    simpa using eq_append_of_after? hr
  | cons c t ih =>
    simp only [breakOn?] at h
    split at h
    · next r hr =>
      simp only [Option.some.injEq, Prod.mk.injEq] at h
      obtain ⟨rfl, rfl⟩ := h
      simpa using eq_append_of_after? hr
    · simp only [Option.map_eq_some_iff, Prod.mk.injEq] at h
      obtain ⟨⟨b, r⟩, hbr, rfl, rfl⟩ := h
      simp [ih hbr]

theorem length_le_of_breakOn? {marker t body rest : Text} (h : breakOn? marker t = some (body, rest)) :
    rest.length ≤ t.length := by
  rw [eq_append_of_breakOn? h]
  simp only [List.length_append]
  omega

theorem occursIn_iff {piece t : Text} : occursIn piece t = true ↔ piece <:+: t := by
  simp only [occursIn, Option.isSome_iff_exists, Prod.exists]
  constructor
  · rintro ⟨body, rest, h⟩
    exact ⟨body, rest, (eq_append_of_breakOn? h).symm⟩
  · rintro ⟨body, rest, h⟩
    induction t generalizing body with
    | nil =>
      simp only [List.append_eq_nil_iff] at h
      obtain ⟨⟨rfl, rfl⟩, rfl⟩ := h
      exact ⟨[], [], rfl⟩
    | cons c t ih =>
      simp only [breakOn?]
      split
      · exact ⟨_, _, rfl⟩
      · next hno =>
        cases body with
        | nil => exact absurd ⟨rest, by simpa using h⟩ (after?_eq_none.1 hno)
        | cons b body =>
          simp only [List.cons_append, List.cons.injEq] at h
          obtain ⟨b', r', hb⟩ := ih body h.2
          exact ⟨c :: b', r', by simp [hb]⟩

theorem occursIn_eq_false {piece t : Text} : occursIn piece t = false ↔ ¬ piece <:+: t := by
  rw [← Bool.not_eq_true, occursIn_iff]

/-- The whole text is its own first occurrence, also if it is empty. -/
theorem replaceFirst_self (new t : Text) : replaceFirst t new t = new := by
  have hbreak : breakOn? t t = some ([], []) := by
    have hself : after? t t = some [] := after?_eq_some.2 (List.append_nil t).symm
    cases t with
    | nil => rfl
    | cons c t => simp only [breakOn?, hself]
  simp [replaceFirst, hbreak]

theorem breakOn?_append {marker body : Text} (rest : Text)
    (h : ∀ s u, body = s ++ u → u ≠ [] → ¬ marker <+: u ++ marker ++ rest) :
    breakOn? marker (body ++ marker ++ rest) = some (body, rest) := by
  induction body with
  | nil =>
    simp only [List.nil_append]
    cases hmr : marker ++ rest with
    | nil =>
      obtain ⟨rfl, rfl⟩ := List.append_eq_nil_iff.1 hmr
      rfl
    | cons c t => simp [breakOn?, ← hmr]
  | cons c body ih =>
    have hno : after? marker (c :: (body ++ marker ++ rest)) = none :=
      after?_eq_none.2 (by simpa using h [] (c :: body) rfl (by simp))
    simp only [List.cons_append, breakOn?, hno,
      ih fun s u hs hu => h (c :: s) u (by simp [hs]) hu, Option.map_some]

end Text
end TermTree
