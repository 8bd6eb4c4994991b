/-
Byte offsets into a text. `RestAt pos t o rest` says that `rest` is what stands at the offset `o` of the text
`t`, which itself stands at the offset `pos`; so `o` lies between two characters of `t`. The bytes between two
such offsets are those of the part of the text that stands there (`RestAt.extract_bytes`).
-/
import TermTree.Text.Blank

namespace TermTree.Text

/-- The bytes of `t` in UTF-8. -/
def bytes (t : Text) : List UInt8 := t.flatMap String.utf8EncodeChar

/-- In the text `t`, which stands at `pos`, `rest` is what stands at the offset `o`, up to the end. -/
def RestAt (pos : Nat) (t : Text) (o : Nat) (rest : Text) : Prop :=
  ∃ before, t = before ++ rest ∧ pos + byteSize before = o

@[simp] theorem bytes_append (s t : Text) : bytes (s ++ t) = bytes s ++ bytes t := List.flatMap_append

theorem length_bytes (t : Text) : (bytes t).length = byteSize t := by
  induction t with
  | nil => rfl
  | cons c t ih =>
    have hcons : bytes (c :: t) = String.utf8EncodeChar c ++ bytes t := List.flatMap_cons
    rw [hcons, List.length_append, String.length_utf8EncodeChar, ih, byteSize_cons]

theorem utf8ByteSize_ofList (t : Text) : (String.ofList t).utf8ByteSize = byteSize t := by
  induction t with
  | nil => rfl
  | cons c t ih =>
    rw [String.ofList_cons, String.utf8ByteSize_append, String.utf8ByteSize_singleton, ih, byteSize_cons]

theorem byteSize_pos {t : Text} (h : t ≠ []) : 0 < byteSize t := by
  obtain ⟨c, t, rfl⟩ := List.exists_cons_of_ne_nil h
  have := c.utf8Size_pos
  rw [byteSize_cons]
  omega

namespace RestAt
variable {pos o o' : Nat} {t u rest : Text}

theorem start (pos : Nat) (t : Text) : RestAt pos t pos t := ⟨[], rfl, rfl⟩

theorem behind (pos : Nat) (s rest : Text) : RestAt pos (s ++ rest) (pos + byteSize s) rest := ⟨s, rfl, rfl⟩

theorem of_after? {marker : Text} (h : after? marker t = some rest) : RestAt pos t (pos + byteSize marker) rest :=
  ⟨marker, eq_append_of_after? h, rfl⟩

theorem trans (h : RestAt pos t o u) (h' : RestAt o u o' rest) : RestAt pos t o' rest := by
  obtain ⟨s, rfl, rfl⟩ := h
  obtain ⟨s', rfl, rfl⟩ := h'
  exact ⟨s ++ s', by rw [List.append_assoc], by rw [byteSize_append, Nat.add_assoc]⟩

theorem append (h : RestAt pos t o rest) (u : Text) : RestAt pos (t ++ u) o (rest ++ u) := by
  obtain ⟨s, rfl, hs⟩ := h
  exact ⟨s, by rw [List.append_assoc], hs⟩

theorem within {after : Text} (h : RestAt pos t o (u ++ after)) (h' : RestAt o u o' rest) :
    RestAt pos t o' (rest ++ after) :=
  h.trans (h'.append after)

theorem start_le (h : RestAt pos t o rest) : pos ≤ o := by
  obtain ⟨s, -, rfl⟩ := h
  exact Nat.le_add_right _ _

theorem add_byteSize_le {after : Text} (h : RestAt pos t o (u ++ after)) : o + byteSize u ≤ pos + byteSize t := by
  obtain ⟨s, rfl, rfl⟩ := h
  simp only [byteSize_append]
  omega

theorem byteSize_lt {after : Text} (h : RestAt pos t o (u ++ after)) (hlt : u.length < t.length) :
    byteSize u < byteSize t := by
  obtain ⟨s, rfl, -⟩ := h
  have hne : s ++ after ≠ [] := by
    rintro hnil
    obtain ⟨rfl, rfl⟩ := List.append_eq_nil_iff.1 hnil
    rw [List.nil_append, List.append_nil] at hlt
    exact Nat.lt_irrefl _ hlt
  have hpos := byteSize_pos hne
  simp only [byteSize_append] at hpos ⊢
  omega

theorem lt (h : RestAt pos t o rest) (hne : rest ≠ []) : o < pos + byteSize t := by
  obtain ⟨s, rfl, rfl⟩ := h
  have := byteSize_pos hne
  simp only [byteSize_append]
  omega

theorem drop_bytes (h : RestAt 0 t o rest) : (bytes t).drop o = bytes rest := by
  obtain ⟨s, rfl, rfl⟩ := h
  rw [Nat.zero_add, ← length_bytes s, bytes_append, List.drop_left]

/-- The bytes from the offset of a part on, as many as the part has, are the part's. -/
theorem extract_bytes {after : Text} (h : RestAt 0 t o (u ++ after)) :
    (bytes t).extract o (o + byteSize u) = bytes u := by
  rw [List.extract_eq_take_drop, Nat.add_sub_cancel_left, h.drop_bytes, bytes_append, ← length_bytes u,
    List.take_left]

theorem sub_start (h : RestAt pos t o rest) : RestAt 0 t (o - pos) rest := by
  obtain ⟨s, rfl, rfl⟩ := h
  exact ⟨s, rfl, by omega⟩

/-- Where something stands, the string of the text can be cut: the offset is between two characters. -/
theorem isValid (h : RestAt 0 t o rest) : String.Pos.Raw.IsValid (String.ofList t) ⟨o⟩ := by
  obtain ⟨s, rfl, rfl⟩ := h
  rw [String.Pos.Raw.isValid_ofList]
  refine ⟨s.length, ?_⟩
  rw [List.take_left, utf8ByteSize_ofList, Nat.zero_add]

end RestAt

theorem restAt_trim (pos : Nat) (t : Text) :
    RestAt pos t (pos + byteSize (leadingBlanks t)) (trim t ++ trailingBlanks (trimStart t)) :=
  ⟨leadingBlanks t, by rw [← List.append_assoc, leadingBlanks_append_trim_append], rfl⟩

end TermTree.Text
