/-!
# Escapes in literals

`decode` gives the text that the body of a string or template literal denotes.  It never
refuses a body: an escape it does not know denotes the escaped character, and a malformed
hexadecimal escape is kept as it stands.
-/

namespace UtilityClasses.Literal

/-- The value of a hexadecimal digit. -/
def hexDigit? (c : Char) : Option Nat :=
  if '0' ≤ c ∧ c ≤ '9' then some (c.toNat - '0'.toNat)
  else if 'a' ≤ c ∧ c ≤ 'f' then some (c.toNat - 'a'.toNat + 10)
  else if 'A' ≤ c ∧ c ≤ 'F' then some (c.toNat - 'A'.toNat + 10)
  else none

/-- The character whose code point some hexadecimal digits write.  A surrogate is no
character. -/
def hexChar? (digits : List Char) : Option Char := do
  let values ← digits.mapM hexDigit?
  let code := values.foldl (fun sum value => 16 * sum + value) 0
  if code.isValidChar then some (Char.ofNat code) else none

/-- The character that exactly `width` hexadecimal digits write. -/
def fixedHex? (width : Nat) (text : List Char) : Option Char :=
  if width ≤ text.length then hexChar? (text.take width) else none

/-- The character that one to six hexadecimal digits in front of a closing brace write, and
the number of the digits. -/
def bracedHex? (text : List Char) : Option (Char × Nat) :=
  let digits := text.takeWhile (· != '\x7d')
  if 0 < digits.length && digits.length ≤ 6 && digits.length < text.length then
    (hexChar? digits).map fun c => (c, digits.length)
  else none

/-- Reads an escape after its backslash: the text it denotes and the number of characters it
takes up. -/
def escape : List Char → List Char × Nat
  | [] => (['\\'], 0)
  | 'n' :: _ => (['\n'], 1)
  | 't' :: _ => (['\t'], 1)
  | 'r' :: _ => (['\r'], 1)
  | 'b' :: _ => (['\x08'], 1)
  | 'f' :: _ => (['\x0c'], 1)
  | 'v' :: _ => (['\x0b'], 1)
  | '0' :: rest => (if rest.head?.any Char.isDigit then ['0'] else ['\x00'], 1)
  | '\r' :: '\n' :: _ => ([], 2)
  | '\r' :: _ | '\n' :: _ | '\u2028' :: _ | '\u2029' :: _ => ([], 1)
  | 'x' :: rest =>
    match fixedHex? 2 rest with
    | some c => ([c], 3)
    | none => (['\\', 'x'], 1)
  | 'u' :: '\x7b' :: rest =>
    match bracedHex? rest with
    | some (c, width) => ([c], width + 3)
    | none => (['\\', 'u'], 1)
  | 'u' :: rest =>
    match fixedHex? 4 rest with
    | some c => ([c], 5)
    | none => (['\\', 'u'], 1)
  | c :: _ => ([c], 1)

/-- Decodes a body after passing over its first `skip` characters, which belong to an escape
that has been read. -/
def decodeAfter : Nat → List Char → List Char
  | _, [] => []
  | skip + 1, _ :: rest => decodeAfter skip rest
  | 0, c :: rest =>
    if c = '\\' then (escape rest).1 ++ decodeAfter (escape rest).2 rest
    else c :: decodeAfter 0 rest

/-- The text that the body of a literal denotes. -/
def decode (body : List Char) : List Char :=
  decodeAfter 0 body

end UtilityClasses.Literal
