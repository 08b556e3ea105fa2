/-!
# Lexemes

The character classes of the scanner, and the lengths of the things it passes over in one
step: blanks and comments, the bodies of strings and templates, regular expressions, values
without quotes, raw text.  Everything here is a function of the text that lies ahead, and
lengths count characters.
-/

namespace UtilityClasses.Scan

/-! ### Character classes -/

/-- Blanks between the parts of a tag and between lexemes of code; ASCII only. -/
def isSpacing (c : Char) : Bool :=
  c = ' ' || c = '\t' || c = '\n' || c = '\r' || c = '\x0c'

/-- Characters that end a line of code. -/
def isLineBreak (c : Char) : Bool :=
  c = '\n' || c = '\r'

/-- Characters that can start an identifier.  Every character beyond ASCII can. -/
def isNameStart (c : Char) : Bool :=
  c.isAlpha || c = '_' || c = '$' || 0x80 ≤ c.toNat

/-- Characters that can continue an identifier. -/
def isNameChar (c : Char) : Bool :=
  isNameStart c || c.isDigit

/-- Characters that can continue a number in code that is only skipped. -/
def isNumberChar (c : Char) : Bool :=
  c.isAlphanum || c = '.' || c = '_'

/-- Characters of tag names: those of identifiers, hyphens, dots and colons. -/
def isTagNameChar (c : Char) : Bool :=
  isNameChar c || c = '-' || c = '.' || c = ':'

/-- Characters that end an attribute name, besides blanks. -/
def attributeNameEnds : List Char :=
  ['\x00', '=', '>', '/', '"', '\'', '<', '\x7b', '\x7d']

/-- Characters of attribute names. -/
def isAttributeNameChar (c : Char) : Bool :=
  !isSpacing c && !attributeNameEnds.contains c

/-- Characters of text, which ends at a tag or a brace. -/
def isTextChar (c : Char) : Bool :=
  c ≠ '<' && c ≠ '\x7b'

/-! ### Finding a text -/

/-- The number of characters before the first occurrence of a text. -/
def offsetOf (needle : List Char) : List Char → Option Nat
  | [] => if needle.isEmpty then some 0 else none
  | c :: rest =>
    if needle.isPrefixOf (c :: rest) then some 0 else (offsetOf needle rest).map (· + 1)

/-- Whether a text starts with another, capital and small ASCII letters being the same. -/
def startsWithFolded (head text : List Char) : Bool :=
  (head.map Char.toLower).isPrefixOf (text.map Char.toLower)

/-! ### Blanks and comments -/

/-- What a text starts with, if comments are looked for. -/
inductive Comment where
  | absent
  | closed (length : Nat)
  | unclosed
  deriving DecidableEq

/-- The comment that a text starts with.  A line comment stops in front of the line break. -/
def comment : List Char → Comment
  | '/' :: '/' :: rest => .closed ((rest.takeWhile fun c => !isLineBreak c).length + 2)
  | '/' :: '*' :: rest =>
    match offsetOf ['*', '/'] rest with
    | some inside => .closed (inside + 4)
    | none => .unclosed
  | _ => .absent

/-- A run of blanks and comments: its length, or, if one of the comments is never closed, how
far in that comment opens. -/
inductive Trivia where
  | closed (length : Nat)
  | unclosed (start : Nat)
  deriving DecidableEq

/-- A run with one more character in front. -/
def Trivia.succ : Trivia → Trivia
  | closed length => closed (length + 1)
  | unclosed start => unclosed (start + 1)

/-- The run of blanks and comments that a text starts with, when its first `skip` characters
are known to belong to a comment. -/
def triviaAfter : Nat → List Char → Trivia
  | _, [] => .closed 0
  | skip + 1, _ :: rest => (triviaAfter skip rest).succ
  | 0, c :: rest =>
    if isSpacing c then (triviaAfter 0 rest).succ
    else
      match comment (c :: rest) with
      | .absent => .closed 0
      | .closed length => (triviaAfter (length - 1) rest).succ
      | .unclosed => .unclosed 0

/-- The run of blanks and comments that a text starts with. -/
def trivia (text : List Char) : Trivia :=
  triviaAfter 0 text

/-! ### Literals -/

/-- The length of the body of a string literal, up to its closing quote, the end of the line
or the end of the text.  A backslash takes the next character with it, and a line break made
of two characters as a whole. -/
def stringBody (quote : Char) : List Char → Nat
  | '\\' :: '\r' :: '\n' :: rest => stringBody quote rest + 3
  | '\\' :: _ :: rest => stringBody quote rest + 2
  | c :: rest => if c = quote || c = '\n' then 0 else stringBody quote rest + 1
  | [] => 0

/-- The length of the text of a template literal, up to its closing quote, the next hole or
the end of the text. -/
def templateText : List Char → Nat
  | '\\' :: _ :: rest => templateText rest + 2
  | '$' :: '\x7b' :: _ => 0
  | c :: rest => if c = '\x60' then 0 else templateText rest + 1
  | [] => 0

/-- The length of a regular expression after its first slash, the closing slash included and
the flags not.  It has to end on its line; a slash in a character class does not end it. -/
def regexBody : Bool → List Char → Option Nat
  | inClass, '\\' :: c :: rest =>
    if isLineBreak c then none else (regexBody inClass rest).map (· + 2)
  | inClass, c :: rest =>
    if c = '/' && !inClass then some 1
    else if isLineBreak c then none
    else
      let inClass := if c = '[' then true else if c = ']' then false else inClass
      (regexBody inClass rest).map (· + 1)
  | _, [] => none

/-! ### Tags -/

/-- The length of an attribute value without quotes. -/
def bareValue : List Char → Nat
  | '/' :: '>' :: _ => 0
  | c :: rest => if isSpacing c || c = '>' then 0 else bareValue rest + 1
  | [] => 0

/-- Whether what follows a name after `<` makes a list of type parameters of the two, as in
`<T,>` and `<T extends U>`.  An attribute may be called `extends`. -/
def opensTypeParameters (text : List Char) : Bool :=
  let next := text.dropWhile isSpacing
  if next.head? = some ',' then true
  else
    next.length < text.length &&
      next.takeWhile isNameChar = ['e', 'x', 't', 'e', 'n', 'd', 's'] &&
      ((next.dropWhile isNameChar).dropWhile isSpacing).head? ≠ some '='

/-- The elements of a document whose content is not markup. -/
def rawTextElements : List (List Char) :=
  [['s', 'c', 'r', 'i', 'p', 't'], ['s', 't', 'y', 'l', 'e']]

/-- The length of the content of a raw text element, up to its closing tag. -/
def rawText (name : List Char) : List Char → Nat
  | [] => 0
  | c :: rest =>
    if startsWithFolded ('<' :: '/' :: name) (c :: rest) then 0 else rawText name rest + 1

end UtilityClasses.Scan
