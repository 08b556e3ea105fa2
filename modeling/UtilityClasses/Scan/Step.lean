import UtilityClasses.Scan.Lexeme
import UtilityClasses.Scan.State

/-!
# Passing over lexemes

The steps of a scan that need nothing but the text ahead.
-/

namespace UtilityClasses.Scan

/-- Passes over ASCII blanks. -/
def skipSpacing : Scan Unit :=
  discard (takeWhile isSpacing)

/-- Passes over everything up to the end of a text that lies ahead, or over the whole source
if it does not occur.  Returns whether it does. -/
def skipPast (needle : List Char) : Scan Bool := do
  let ahead ← rest
  match offsetOf needle ahead with
  | some before =>
    skip (before + needle.length)
    return true
  | none =>
    skip ahead.length
    return false

/-- Passes over the rest of the line, up to its line break. -/
def skipLine : Scan Unit :=
  discard (takeWhile fun c => !isLineBreak c)

/-- Passes over blanks and comments. -/
def skipTrivia : Scan Unit := do
  let ahead ← rest
  match trivia ahead with
  | .closed length => skip length
  | .unclosed before =>
    skip before
    let start ← position
    skip ahead.length
    fail .openComment start

/-- Passes over a string literal whose opening quote lies ahead.  Returns its body and its
span with the quotes. -/
def stringLiteral (quote : Char) : Scan (List Char × Span) := do
  let start ← position
  skip 1
  let body ← take (stringBody quote (← rest))
  if (← rest).head? = some quote then
    skip 1
    return (body, ← spanFrom start)
  else
    fail .openString start

end UtilityClasses.Scan
