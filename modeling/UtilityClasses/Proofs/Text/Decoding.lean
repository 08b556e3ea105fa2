import UtilityClasses.Path
import UtilityClasses.Proofs.Cursor.Byte

/-!
# Texts read back

The bytes of a text are read back as that text, and nothing in them is replaced.
-/

namespace UtilityClasses.Text

open Cursor (encode)

variable {text : String} {written : List UInt8}

theorem bytes_eq (text : String) :
  bytes text = encode text.toList
  := Cursor.toList_toUTF8 text

theorem toByteArray_bytes (text : String) :
  (bytes text).toByteArray = text.toByteArray
  := by
  rw [bytes, String.toUTF8_eq_toByteArray]
  apply ByteArray.ext
  simp

/-- Bytes are a text exactly if they are the bytes of that text. -/
theorem ofBytes?_eq_some_iff :
  ofBytes? written = some text ↔ written = bytes text
  := by
  rw [ofBytes?, String.fromUTF8?]
  constructor
  · intro h
    split at h
    · rw [← Option.some.inj h, ← List.toByteArray_inj, toByteArray_bytes]
      rfl
    · cases h
  · rintro rfl
    have hvalid : (bytes text).toByteArray.IsValidUTF8 := by
      rw [toByteArray_bytes]
      exact text.isValidUTF8
    rw [dif_pos hvalid, Option.some_inj, ← String.toByteArray_inj]
    exact toByteArray_bytes text

@[simp]
theorem ofBytes?_bytes (text : String) :
  ofBytes? (bytes text) = some text
  := ofBytes?_eq_some_iff.mpr rfl

/-- Bytes that have been read already are passed over. -/
theorem lenientAfter_append (read later : List UInt8) :
  lenientAfter read.length (read ++ later) = lenientAfter 0 later
  := by
  induction read with
  | nil => rfl
  | cons byte read ih => exact ih

/-- Bytes that start with those of a character start with that character. -/
theorem first?_append (c : Char) (later : List UInt8) :
  first? (String.utf8EncodeChar c ++ later) = some c
  := by
  have hlength : (String.utf8EncodeChar c).length ≤ 4 := by
    rw [String.length_utf8EncodeChar]
    exact c.utf8Size_le_four
  rw [first?, List.take_append, List.take_of_length_le hlength, List.toByteArray_append]
  exact ByteArray.utf8DecodeChar?_utf8EncodeChar_append

theorem lenientAfter_encode (text : List Char) :
  lenientAfter 0 (encode text) = text
  := by
  induction text with
  | nil => rfl
  | cons c text ih =>
    have hfirst := first?_append c (encode text)
    have hlength := String.length_utf8EncodeChar c
    obtain ⟨first, others, hbytes, -⟩ := Cursor.exists_utf8EncodeChar_eq_cons c
    rw [hbytes] at hfirst hlength
    have hothers : c.utf8Size - 1 = others.length := by
      rw [← hlength, List.length_cons, Nat.add_sub_cancel]
    rw [Cursor.encode_cons, hbytes, List.cons_append, lenientAfter]
    rw [List.cons_append] at hfirst
    simp only [hfirst, hothers, lenientAfter_append, ih]

/-- Nothing in the bytes of a text is replaced. -/
@[simp]
theorem lenient_bytes (text : String) :
  lenient (bytes text) = text
  := by
  rw [lenient, bytes_eq, lenientAfter_encode, String.ofList_toList]

/-- A text starts with the byte of a sign exactly if it starts with the sign. -/
theorem head?_bytes_eq_some_iff {c : Char} (hc : Cursor.IsSign c) :
  (bytes text).head? = some (Cursor.byte c) ↔ text.toList.head? = some c
  := by
  rw [bytes_eq]
  cases text.toList with
  | nil => simp
  | cons d later =>
    obtain ⟨first, others, hbytes, -⟩ := Cursor.exists_utf8EncodeChar_eq_cons d
    rw [← Cursor.lead_eq_byte_iff hc, Cursor.lead, Cursor.encode_cons, hbytes]
    simp

end UtilityClasses.Text

namespace UtilityClasses.Path

variable {path : Path}

/-- The path of a text is shown as that text. -/
@[simp]
theorem display_ofText (text : String) :
  (ofText text).display = text
  := Text.lenient_bytes text

/-- A path that is given by a text. -/
def IsText (path : Path) : Prop :=
  ∃ text, path = ofText text

theorem isText_ofText (text : String) :
  (ofText text).IsText
  := ⟨text, rfl⟩

/-- A path that is given by a text is the one that its text gives. -/
theorem IsText.ofText_display (h : path.IsText) :
  ofText path.display = path
  := by
  obtain ⟨text, rfl⟩ := h
  rw [display_ofText]

end UtilityClasses.Path
