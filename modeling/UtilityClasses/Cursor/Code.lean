import UtilityClasses.Cursor.Element
import UtilityClasses.Scan.Code

/-!
# Code

Code is passed over, with an eye on the depth of brackets and on whether the lexeme before is
an operand.
-/

namespace UtilityClasses.Cursor

open Scan (Place operatorWords)

/-- A round over a template that started at an earlier offset.  At the closing quote or at a hole
it goes on with one of two readings; before them it passes over text, and over a backslash and
what it takes with it. -/
def templatePart {σ α : Type} (again : σ) (start : Nat) (closing hole : Reading (Round σ α)) :
    Reading (Round σ α) := do
  let b ← seek [byte '\x60', byte '\\', byte '$']
  if b = byte '\x60' then closing
  else if b = byte '\\' then
    advance
    advanceChar
    return .again again
  else if b = byte '$' && (← peek) = byte '\x7b' then hole
  else if b = byte '$' then
    advance
    return .again again
  else
    fail .openTemplate start

/-- Passes over text of a template, a hole, or its end. -/
def templateRound (context : Context) (start : Nat) : Reading (Round Unit Unit) :=
  templatePart () start
    (do
      advance
      return .done ())
    (do
      advanceBy 2
      if ← context.nested.code ['\x7d'] then
        advance
        return .again ()
      else
        fail .openTemplate start)

/-- Passes over a template literal, its opening quote being ahead. -/
def skipTemplate (context : Context) : Reading Unit := do
  let start ← position
  advance
  rounds (fun _ => templateRound context start) ()

/-- Passes over an operator of one byte. -/
def operator (place : Place) : Reading Place := do
  advance
  return { place with previous := .operator }

/-- Passes over what a slash starts that starts no comment: a regular expression where an
operand is expected, and otherwise an operator. -/
def slash (place : Place) : Reading Place := do
  if place.previous = .operator then
    if ← skipRegex then return { place with previous := .operand }
    else operator place
  else operator place

/-- Passes over what `<` starts: an element where an operand is expected, and otherwise an
operator. -/
def angle (context : Context) (place : Place) : Reading Place := do
  if place.previous = .operator && context.dialect.allowsElements then
    if ← element context then return { place with previous := .operand }
    else operator place
  else operator place

/-- Passes over one lexeme of code, given its first byte. -/
def lexeme (context : Context) (place : Place) (b : UInt8) : Reading Place := do
  if b = byte '"' || b = byte '\'' then
    discard skipString
    return { place with previous := .operand }
  else if b = byte '\x60' then
    skipTemplate context
    return { place with previous := .operand }
  else if b = byte '/' then slash place
  else if b = byte '<' then angle context place
  else if b = byte '(' || b = byte '[' || b = byte '\x7b' then
    advance
    return ⟨place.depth + 1, .operator⟩
  else if b = byte ')' || b = byte ']' || b = byte '\x7d' then
    advance
    return ⟨place.depth - 1, if b = byte '\x7d' then .operator else .operand⟩
  else if isNameStart b then
    let start ← position
    eatName
    let word := String.ofList (← sliceFrom start)
    return { place with
      previous := if operatorWords.contains word then .operator else .operand }
  else if isDigit b then
    eatWhile isNumberByte
    return { place with previous := .operand }
  else operator place

/-- Passes over blanks and a comment or a lexeme behind them, unless code ends there. -/
def codeRound (context : Context) (stops : List Char) (place : Place) :
    Reading (Round Place Bool) := do
  eatSpacing
  if ← atEnd then return .done false
  else
    let b ← current
    if place.depth = 0 && stops.any (b == byte ·) then return .done true
    else
      let isComment ← if b = byte '/' then skipComment else pure false
      if isComment then return .again place
      else return .again (← lexeme context place b)

/-- Passes over code up to one of the given characters outside all brackets.  Returns whether
it occurs. -/
def code (context : Context) (stops : List Char) : Reading Bool :=
  rounds (codeRound context stops) ⟨0, .operator⟩

end UtilityClasses.Cursor
