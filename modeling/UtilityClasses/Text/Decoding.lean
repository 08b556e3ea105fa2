/-!
# Bytes of texts

A text is written in UTF-8.  Not all bytes are a text, and where they are to be shown all the
same, what cannot be read is replaced.
-/

namespace UtilityClasses.Text

/-- The bytes of a text. -/
def bytes (text : String) : List UInt8 :=
  text.toUTF8.data.toList

/-- The text that bytes are, if they are one. -/
def ofBytes? (bytes : List UInt8) : Option String :=
  String.fromUTF8? bytes.toByteArray

/-- The ranges of the bytes that follow the first byte of a character.  There are none for an
ASCII character, nor for a byte that no character starts with. -/
def followers (first : UInt8) : List (UInt8 × UInt8) :=
  let any := (0x80, 0xBF)
  if first < 0xC2 then []
  else if first < 0xE0 then [any]
  else if first = 0xE0 then [(0xA0, 0xBF), any]
  else if first = 0xED then [(0x80, 0x9F), any]
  else if first < 0xF0 then [any, any]
  else if first = 0xF0 then [(0x90, 0xBF), any, any]
  else if first < 0xF4 then [any, any, any]
  else if first = 0xF4 then [(0x80, 0x8F), any, any]
  else []

/-- How many bytes are in these ranges, one after the other. -/
def fitting : List (UInt8 × UInt8) → List UInt8 → Nat
  | (low, high) :: ranges, byte :: bytes =>
    if low ≤ byte ∧ byte ≤ high then fitting ranges bytes + 1 else 0
  | _, _ => 0

/-- The character that bytes start with. -/
def first? (bytes : List UInt8) : Option Char :=
  (bytes.take 4).toByteArray.utf8DecodeChar? 0

/-- The characters of bytes after some that have been read already.  Where there is none, the
longest beginning of one, or else a single byte, is replaced. -/
def lenientAfter : Nat → List UInt8 → List Char
  | _, [] => []
  | skip + 1, _ :: later => lenientAfter skip later
  | 0, first :: later =>
    match first? (first :: later) with
    | some c => c :: lenientAfter (c.utf8Size - 1) later
    | none => '\uFFFD' :: lenientAfter (fitting (followers first) later) later

/-- Bytes as a text, with replacements for what cannot be read. -/
def lenient (bytes : List UInt8) : String :=
  String.ofList (lenientAfter 0 bytes)

end UtilityClasses.Text
