/-!
# Byte offsets

Offsets into a text count the bytes of its UTF-8 form.  An offset is good for cutting a
text only where a character starts, or at the very end: `cutAt` succeeds exactly when the
text is made of two parts of which the first has as many bytes as the offset says.
-/

namespace UtilityClasses.Text

/-- The number of bytes of a text. -/
def byteSize : List Char → Nat
  | [] => 0
  | c :: rest => c.utf8Size + byteSize rest

@[simp]
theorem byteSize_append (before after : List Char) :
  byteSize (before ++ after) = byteSize before + byteSize after
  := by
  induction before with
  | nil => simp [byteSize]
  | cons c rest ih => simp [byteSize, ih, Nat.add_assoc]

/-- Cuts a text at a byte offset.  There is no cut past the end or inside a character. -/
def cutAt (offset : Nat) : List Char → Option (List Char × List Char)
  | [] => if offset = 0 then some ([], []) else none
  | c :: rest =>
    if offset = 0 then some ([], c :: rest)
    else if c.utf8Size ≤ offset then
      (cutAt (offset - c.utf8Size) rest).map fun (before, after) => (c :: before, after)
    else none

/-- A text is cut into its two parts at the size of the first. -/
theorem cutAt_byteSize_append (before after : List Char) :
  cutAt (byteSize before) (before ++ after) = some (before, after)
  := by
  induction before with
  | nil => cases after <;> rfl
  | cons c rest ih =>
    have := c.utf8Size_pos
    rw [List.cons_append, cutAt, byteSize, if_neg (by omega), if_pos (by omega),
      Nat.add_sub_cancel_left, ih]
    rfl

/-- The parts of a cut make up the text, and the first is as long as the offset says. -/
theorem eq_append_of_cutAt
    {offset : Nat} {text before after : List Char}
    (h : cutAt offset text = some (before, after)) :
  text = before ++ after ∧ byteSize before = offset
  := by
  induction text generalizing offset before with
  | nil =>
    rw [cutAt] at h
    split at h
    · obtain ⟨rfl, rfl⟩ := Prod.mk.inj (Option.some.inj h)
      exact ⟨rfl, by simp [byteSize, *]⟩
    · exact absurd h (by simp)
  | cons c rest ih =>
    rw [cutAt] at h
    split at h
    · obtain ⟨rfl, rfl⟩ := Prod.mk.inj (Option.some.inj h)
      exact ⟨rfl, by simp [byteSize, *]⟩
    · split at h
      · obtain ⟨⟨first, last⟩, hcut, heq⟩ := Option.map_eq_some_iff.1 h
        obtain ⟨rfl, rfl⟩ := Prod.mk.inj heq
        obtain ⟨rfl, hsize⟩ := ih hcut
        exact ⟨rfl, by rw [byteSize, hsize]; omega⟩
      · exact absurd h (by simp)

/-- A cut succeeds exactly where a first part of the text ends. -/
theorem cutAt_eq_some_iff (offset : Nat) (text before after : List Char) :
  cutAt offset text = some (before, after) ↔ text = before ++ after ∧ byteSize before = offset
  := by
  constructor
  · exact eq_append_of_cutAt
  · rintro ⟨rfl, rfl⟩
    exact cutAt_byteSize_append before after

end UtilityClasses.Text
