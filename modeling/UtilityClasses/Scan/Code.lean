import UtilityClasses.Scan.Element

/-!
# Code

Code is passed over, not parsed.  All that is kept track of is the depth of brackets and
whether the lexeme before is an operand: after an operand `/` divides and `<` compares,
elsewhere they start a regular expression and an element.
-/

namespace UtilityClasses.Scan

/-- The words after which an operand is expected. -/
def operatorWords : List String :=
  ["return", "typeof", "instanceof", "in", "of", "new", "delete", "void", "throw", "case",
    "do", "else", "yield", "await"]

/-- What the lexeme before is. -/
inductive Previous where
  | operand
  | operator
  deriving DecidableEq

/-- Where a scan of code stands. -/
structure Place where
  depth : Nat
  previous : Previous

/-- Passes over the text and the holes of a template literal up to its end, the literal
having started at an earlier offset. -/
def templateTail (context : Context) (start : Nat) : Nat → Scan Unit
  | 0 => exhaust
  | budget + 1 => do
    skip (templateText (← rest))
    match ← rest with
    | '\x60' :: _ => skip 1
    | [] => fail .openTemplate start
    | _ =>
      skip 2
      if ← context.nested.code ['\x7d'] then
        skip 1
        templateTail context start budget
      else
        fail .openTemplate start

/-- Passes over a template literal, its opening quote being ahead. -/
def skipTemplate (context : Context) : Scan Unit := do
  let start ← position
  skip 1
  templateTail context start context.budget

/-- Passes over an operator of one character. -/
def operator (place : Place) : Scan Place := do
  skip 1
  return { place with previous := .operator }

/-- Passes over a regular expression and its flags, the first slash being ahead.  Returns
whether there is one; if there is none, the scan has not moved. -/
def skipRegex : Scan Bool := do
  match regexBody false ((← rest).drop 1) with
  | some length =>
    skip (length + 1)
    discard (takeWhile isNameChar)
    return true
  | none => return false

/-- Passes over what a slash starts, which is ahead: a regular expression where an operand is
expected, and otherwise an operator. -/
def slash (place : Place) : Scan Place := do
  if place.previous = .operator then
    if ← skipRegex then return { place with previous := .operand }
    else operator place
  else operator place

/-- Passes over what `<` starts, which is ahead: an element where an operand is expected, and
otherwise an operator. -/
def angle (context : Context) (place : Place) : Scan Place := do
  if place.previous = .operator && context.dialect.allowsElements then
    if ← element context then return { place with previous := .operand }
    else operator place
  else operator place

/-- Passes over one lexeme of code, given its first character. -/
def lexeme (context : Context) (place : Place) (c : Char) : Scan Place := do
  if c = '"' || c = '\'' then
    discard (stringLiteral c)
    return { place with previous := .operand }
  else if c = '\x60' then
    skipTemplate context
    return { place with previous := .operand }
  else if c = '/' then slash place
  else if c = '<' then angle context place
  else if c = '(' || c = '[' || c = '\x7b' then
    skip 1
    return ⟨place.depth + 1, .operator⟩
  else if c = ')' || c = ']' || c = '\x7d' then
    skip 1
    return ⟨place.depth - 1, if c = '\x7d' then .operator else .operand⟩
  else if isNameStart c then
    let word := String.ofList (← takeWhile isNameChar)
    return { place with
      previous := if operatorWords.contains word then .operator else .operand }
  else if c.isDigit then
    discard (takeWhile isNumberChar)
    return { place with previous := .operand }
  else operator place

/-- Passes over code from a place on, up to one of the given characters outside all brackets.
Returns whether it occurs.  Closing brackets that close nothing are ignored. -/
def codeFrom (context : Context) (stops : List Char) : Nat → Place → Scan Bool
  | 0, _ => exhaust
  | budget + 1, place => do
    skipTrivia
    match ← rest with
    | [] => return false
    | c :: _ =>
      if place.depth = 0 && stops.contains c then return true
      else codeFrom context stops budget (← lexeme context place c)

/-- Passes over code up to one of the given characters outside all brackets.  Returns whether
it occurs. -/
def code (context : Context) (stops : List Char) : Scan Bool :=
  codeFrom context stops context.budget ⟨0, .operator⟩

end UtilityClasses.Scan
