import UtilityClasses.Cursor.State
import UtilityClasses.Dialect

/-!
# Lexemes

What is passed over without regard to what is around it: names, strings, comments and regular
expressions.
-/

namespace UtilityClasses.Cursor

/-! ### Names -/

/-- Passes over the next character of a name. -/
def nameRound : Reading (Round Unit Unit) := do
  let b ← current
  if 0x80 ≤ b then
    advanceChar
    return .again ()
  else if isNameByte b then
    advance
    return .again ()
  else
    return .done ()

/-- Passes over an identifier or a keyword. -/
def eatName : Reading Unit :=
  rounds (fun _ => nameRound) ()

/-! ### Strings -/

/-- Passes over text of a string up to its end or past the next backslash and what it takes
with it. -/
def stringRound (quote : UInt8) (start : Nat) : Reading (Round Unit Span) := do
  let b ← seek [quote, byte '\\', byte '\n']
  if b = byte '\\' then
    advance
    if (← current) = byte '\r' && (← peek) = byte '\n' then advance
    advanceChar
    return .again ()
  else if b = quote then
    advance
    return .done (← spanFrom start)
  else
    fail .openString start

/-- Passes over a string literal, its opening quote being ahead, and returns its span with the
quotes. -/
def skipString : Reading Span := do
  let start ← position
  let quote ← current
  advance
  rounds (fun _ => stringRound quote start) ()

/-! ### Comments -/

/-- Passes over a comment and returns whether there is one. -/
def skipComment : Reading Bool := do
  if (← current) = byte '/' then
    let next ← peek
    if next = byte '/' then
      eatLine
      return true
    else if next = byte '*' then
      let start ← position
      advanceBy 2
      if ← skipPast ['*', '/'] then return true else fail .openComment start
    else
      return false
  else
    return false

/-- Passes over blanks and a comment behind them. -/
def triviaRound : Reading (Round Unit Unit) := do
  eatSpacing
  if ← skipComment then return .again () else return .done ()

/-- Passes over blanks and comments. -/
def skipTrivia : Reading Unit :=
  rounds (fun _ => triviaRound) ()

/-! ### Regular expressions -/

/-- Passes over a character of a regular expression, `inClass` saying whether it is one of a
character class.  The last round tells whether the expression is closed on its line. -/
def regexRound (inClass : Bool) : Reading (Round Bool Bool) := do
  let b ← current
  if b = byte '\\' then
    advance
    let next ← current
    if next = byte '\n' || next = byte '\r' || (← atEnd) then
      return .done false
    else
      advanceChar
      return .again inClass
  else if b = byte '[' then
    advance
    return .again true
  else if b = byte ']' then
    advance
    return .again false
  else if b = byte '/' && !inClass then
    advance
    eatWhile isNameByte
    return .done true
  else if b = byte '\n' || b = byte '\r' || (← atEnd) then
    return .done false
  else
    advanceChar
    return .again inClass

/-- Passes over a regular expression and its flags, the first slash being ahead, and returns
whether there is one.  If there is none, the cursor goes back. -/
def skipRegex : Reading Bool := do
  let start ← position
  advance
  if ← rounds regexRound false then
    return true
  else
    moveTo start
    return false

end UtilityClasses.Cursor
