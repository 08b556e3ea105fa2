import UtilityClasses.Cursor.Tag
import UtilityClasses.Scan.Element

/-!
# Elements in code

An element is read from its opening tag to its closing tag, by counting the tags that are
open.
-/

namespace UtilityClasses.Cursor

open Scan (OpenTag)

/-- Passes over a word and the blanks behind it, if it starts with `extends`.  Returns whether
this is the word and it is not the name of an attribute with a value. -/
def eatExtends : Reading Bool := do
  if ← startsWith ['e', 'x', 't', 'e', 'n', 'd', 's'] then
    let start ← position
    eatName
    let word ← sliceFrom start
    eatSpacing
    return word = ['e', 'x', 't', 'e', 'n', 'd', 's'] && (← current) ≠ byte '='
  else
    return false

/-- Whether what follows a name after `<` makes a list of type parameters of the two.  The
cursor ends where it was. -/
def opensTypeParameters : Reading Bool := do
  let afterName ← position
  eatSpacing
  let verdict ←
    if (← current) = byte ',' then pure true
    else if afterName < (← position) then eatExtends
    else pure false
  moveTo afterName
  return verdict

/-- Reads an opening tag, the `<` being ahead.  If the `<` opens no tag, there is no result and
the cursor ends where it was. -/
def openTag? (context : Context) : Reading (Option OpenTag) := do
  let start ← position
  let next ← peek
  if next = byte '>' then
    advanceBy 2
    return some ⟨"", ← spanFrom start, false⟩
  else if isNameStart next then
    advance
    let nameStart ← position
    eatWhile isTagNameByte
    let name := String.ofList (← sliceFrom nameStart)
    if ← opensTypeParameters then
      moveTo start
      return none
    else
      let selfClosing ← tag context name start
      return some ⟨name, ← spanFrom start, selfClosing⟩
  else
    return none

/-- Refuses the source because an element is never closed. -/
def failUnclosed {α : Type} (tag : OpenTag) : Reading α :=
  throw (.refused ⟨.openElement tag.name, tag.span⟩)

/-- Passes over text and the tag or the braces behind it, when so many tags are open. -/
def contentRound (context : Context) (outer : OpenTag) (depth : Nat) :
    Reading (Round Nat Unit) := do
  let b ← seek [byte '<', byte '\x7b']
  if b = byte '\x7b' then
    skipBraced context
    return .again depth
  else if b = byte '<' then
    if (← peek) = byte '/' then
      advanceBy 2
      if ← skipPast ['>'] then
        if depth - 1 = 0 then return .done () else return .again (depth - 1)
      else
        failUnclosed outer
    else
      match ← openTag? context with
      | some tag => return .again (if tag.selfClosing then depth else depth + 1)
      | none =>
        advance
        return .again depth
  else
    failUnclosed outer

/-- Passes over an element, the `<` being ahead.  Returns whether there is one; if there is
none, the cursor ends where it was. -/
def element (context : Context) : Reading Bool := do
  match ← openTag? context with
  | some tag =>
    if tag.selfClosing then return true
    else
      rounds (contentRound context tag) 1
      return true
  | none => return false

end UtilityClasses.Cursor
