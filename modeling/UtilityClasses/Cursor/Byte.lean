/-!
# Bytes

A text is read by its bytes in UTF-8.  A byte below 128 is an ASCII character, and the others
belong to longer characters, of which the first byte tells the width.
-/

namespace UtilityClasses.Cursor

/-- The bytes of a text. -/
def encode (text : List Char) : List UInt8 :=
  text.flatMap String.utf8EncodeChar

/-- The byte of an ASCII character. -/
def byte (c : Char) : UInt8 :=
  UInt8.ofNat c.toNat

/-- The number of bytes of a character, as its first byte tells it. -/
def width (first : UInt8) : Nat :=
  if 0xC0 ≤ first && first ≤ 0xDF then 2
  else if 0xE0 ≤ first && first ≤ 0xEF then 3
  else if 0xF0 ≤ first && first ≤ 0xF7 then 4
  else 1

/-- The byte of a capital ASCII letter, and otherwise the byte itself, in small letters. -/
def toLower (b : UInt8) : UInt8 :=
  if byte 'A' ≤ b && b ≤ byte 'Z' then b + 32 else b

/-! ### Classes of bytes -/

/-- Blanks. -/
def isSpacing (b : UInt8) : Bool :=
  [' ', '\t', '\n', '\r', '\x0c'].any (b == byte ·)

/-- Decimal digits. -/
def isDigit (b : UInt8) : Bool :=
  byte '0' ≤ b && b ≤ byte '9'

/-- Letters. -/
def isAlpha (b : UInt8) : Bool :=
  (byte 'A' ≤ b && b ≤ byte 'Z') || (byte 'a' ≤ b && b ≤ byte 'z')

/-- Bytes that can start an identifier.  Every byte beyond ASCII can. -/
def isNameStart (b : UInt8) : Bool :=
  isAlpha b || b == byte '_' || b == byte '$' || 0x80 ≤ b

/-- Bytes that can continue an identifier. -/
def isNameByte (b : UInt8) : Bool :=
  isNameStart b || isDigit b

/-- Bytes that can continue a number in code that is only skipped. -/
def isNumberByte (b : UInt8) : Bool :=
  isAlpha b || isDigit b || b == byte '.' || b == byte '_'

/-- Bytes of tag names. -/
def isTagNameByte (b : UInt8) : Bool :=
  isAlpha b || isDigit b || ['-', '_', '.', ':', '$'].any (b == byte ·) || 0x80 ≤ b

/-- Bytes of attribute names. -/
def isAttributeNameByte (b : UInt8) : Bool :=
  !isSpacing b &&
    !(['\x00', '=', '>', '/', '"', '\'', '<', '\x7b', '\x7d'].any (b == byte ·))

end UtilityClasses.Cursor
