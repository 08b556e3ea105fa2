import UtilityClasses.Cursor.Byte
import UtilityClasses.Span
import UtilityClasses.Text.Offset
import UtilityClasses.Token.Segments

/-!
# Tokens by their bytes

A token is cut, and the place of its affix is found, by offsets of bytes.  In a quotation a
backslash passes over one byte, be it the first of a longer character, and possibly past the end
of the token.  Nothing ensures that a range is made of whole characters: `segments?` and
`withAffix?` have no result where a text would be cut inside a character.
-/

namespace UtilityClasses.Cursor

/-- The ranges of the segments of a token from an offset on, given the bracket depth and the
open quote there, and where the current segment starts.  The depth is no more than the number of
bytes, so a counter of 32 bits is never used up: a token stands in a source, and sources of
2 ^ 32 bytes and more are refused before they are read. -/
def rangesFrom (bytes : List UInt8) (depth : Nat) (quote : Option UInt8) (start pos : Nat) :
    List Span :=
  if h : pos < bytes.length then
    let b := bytes[pos]
    match quote with
    | some mark =>
      if b = byte '\\' then rangesFrom bytes depth quote start (pos + 2)
      else rangesFrom bytes depth (if b = mark then none else quote) start (pos + 1)
    | none =>
      if b = byte '\'' || b = byte '"' then rangesFrom bytes depth (some b) start (pos + 1)
      else if b = byte '[' then rangesFrom bytes (depth + 1) none start (pos + 1)
      else if b = byte ']' then rangesFrom bytes (depth - 1) none start (pos + 1)
      else if b = byte ':' && depth = 0 then
        ⟨start, pos⟩ :: rangesFrom bytes depth none (pos + 1) (pos + 1)
      else rangesFrom bytes depth none start (pos + 1)
  else if start < bytes.length then [⟨start, bytes.length⟩]
  else []
  termination_by bytes.length - pos

/-- The ranges of the segments of a token. -/
def ranges (bytes : List UInt8) : List Span :=
  rangesFrom bytes 0 none 0 0

/-- The text of a range that is made of whole characters. -/
def textAt? (text : List Char) (range : Span) : Option (List Char) := do
  let (before, _) ← Text.cutAt range.stop text
  let (_, inside) ← Text.cutAt range.start before
  return inside

/-- The segments of a token. -/
def segments? (token : List Char) : Option (List (List Char)) :=
  (ranges (encode token)).mapM (textAt? token)

/-- Whether the affix lies at the start of a segment and reaches the start of the root. -/
def carriesAt? (affix body : List Char) (root segment : Span) : Option Bool :=
  if segment.start ≤ root.start && root.start ≤ segment.start + Text.byteSize affix then do
    let (_, rest) ← Text.cutAt segment.start body
    return affix.isPrefixOf rest
  else some false

/-- Puts the affix in front of the root of a token, unless the token carries it. -/
def withAffix? (affix token : List Char) : Option (List Char) := do
  if affix.isEmpty then return token
  let body := Token.body token
  let found := ranges (encode body)
  match found.getLast? with
  | none => return token
  | some root =>
    if ← found.anyM (carriesAt? affix body root) then return token
    let marker := Text.byteSize token - Text.byteSize body
    let (front, rest) ← Text.cutAt (marker + root.start) token
    return front ++ affix ++ rest

end UtilityClasses.Cursor
