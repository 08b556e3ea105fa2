import UtilityClasses.Scan.Tag

/-!
# Elements in code

An element in code extends to its closing tag.  The tags inside it are counted, not matched
by name: as many have to close as have opened.
-/

namespace UtilityClasses.Scan

/-- An opening tag that has been read. -/
structure OpenTag where
  name : String
  span : Span
  selfClosing : Bool

/-- Reads an opening tag, the `<` being ahead.  Has no result, and does not move, if the `<`
opens no tag.  The tag `<>` has no name and is not recorded. -/
def openTag? (context : Context) : Scan (Option OpenTag) := do
  let start ← position
  match ← rest with
  | '<' :: '>' :: _ =>
    skip 2
    return some ⟨"", ← spanFrom start, false⟩
  | '<' :: c :: _ =>
    if isNameStart c then
      let before ← get
      skip 1
      let name := String.ofList (← takeWhile isTagNameChar)
      if opensTypeParameters (← rest) then
        set before
        return none
      else
        let selfClosing ← tag context name start
        return some ⟨name, ← spanFrom start, selfClosing⟩
    else
      return none
  | _ => return none

/-- Refuses the source because an element is never closed. -/
def failUnclosed (tag : OpenTag) : Scan Unit :=
  throw (.error ⟨.openElement tag.name, tag.span⟩)

/-- Passes over the content of an element up to its closing tag, when `inner` more tags are
open inside it.  The error, if the element is never closed, is reported at `outer`. -/
def content (context : Context) (outer : OpenTag) : Nat → Nat → Scan Unit
  | 0, _ => exhaust
  | budget + 1, inner => do
    discard (takeWhile isTextChar)
    match ← rest with
    | [] => failUnclosed outer
    | '<' :: '/' :: _ =>
      skip 2
      if ← skipPast ['>'] then
        match inner with
        | 0 => return ()
        | less + 1 => content context outer budget less
      else
        failUnclosed outer
    | '<' :: _ =>
      match ← openTag? context with
      | some tag => content context outer budget (if tag.selfClosing then inner else inner + 1)
      | none =>
        skip 1
        content context outer budget inner
    | _ =>
      braced context
      content context outer budget inner

/-- Passes over an element, the `<` being ahead.  Returns whether there is one; if there is
none, the scan has not moved. -/
def element (context : Context) : Scan Bool := do
  match ← openTag? context with
  | some tag =>
    if tag.selfClosing then return true
    else
      content context tag context.budget 0
      return true
  | none => return false

end UtilityClasses.Scan
