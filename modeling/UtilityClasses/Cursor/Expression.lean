import UtilityClasses.Cursor.Allocator
import UtilityClasses.Cursor.Code
import UtilityClasses.Scan.Expression

/-!
# Expressions

The expressions that can hold a class list.  A region that is not one is read again from its
start, as code.  What stores an expression is given for every way to store them.
-/

namespace UtilityClasses.Cursor

open Scan (Node refusedWords)

variable (alloc : Allocator)

/-! ### Operands -/

/-- Stores a logical expression that covers its operands. -/
def Allocator.storeLogical (op : LogicalOp) (left right : Node) : Reading Node :=
  alloc.store (.logical op left.id right.id) (left.span.merge right.span)

/-- Reads a string literal, its opening quote being ahead. -/
def Allocator.stringNode (quote : Quote) : Reading Node := do
  let span ← skipString
  let body ← slice (span.start + 1) (span.stop - 1)
  alloc.store (.str quote (String.ofList (Literal.decode body))) span

/-- The texts and the holes of a template read so far, and where the text that is being read
started. -/
structure Template where
  texts : List String
  holes : List ExprId
  segment : Nat

/-- Reads text of a template, a hole, or its end. -/
def Allocator.templateNodeRound (context : Context) (start : Nat) (template : Template) :
    Reading (Round Template Node) :=
  templatePart template start
    (do
      let text := String.ofList (Literal.decode (← sliceFrom template.segment))
      advance
      return .done (← alloc.store (.template (template.texts ++ [text]) template.holes)
        (← spanFrom start)))
    (do
      let text := String.ofList (Literal.decode (← sliceFrom template.segment))
      advanceBy 2
      let hole ← context.nested.region ['\x7d']
      if (← current) = byte '\x7d' then
        advance
        return .again ⟨template.texts ++ [text], template.holes ++ [hole.id], ← position⟩
      else
        fail .openTemplate start)

/-- Reads a template literal, its opening quote being ahead. -/
def Allocator.templateNode (context : Context) : Reading Node := do
  let start ← position
  advance
  rounds (alloc.templateNodeRound context start) ⟨[], [], ← position⟩

/-- Reads an expression in parentheses, the opening one being ahead. -/
def Allocator.parenNode (context : Context) : Trial Node := do
  let start ← position
  advance
  skipTrivia
  let inner ← context.nested.expression
  skipTrivia
  guard ((← current) = byte ')')
  advance
  alloc.store (.paren inner.id) (← spanFrom start)

/-- Reads the next item of an array or its end, given the items read so far. -/
def arrayRound (context : Context) (items : List ExprId) :
    Trial (Round (List ExprId) (List ExprId)) := do
  skipTrivia
  let b ← current
  if b = byte ']' then
    advance
    return .done items
  else if b = byte ',' then
    advance
    return .again items
  else
    let item ← context.nested.region [',', ']']
    let next ← current
    if next = byte ',' then
      advance
      return .again (items ++ [item.id])
    else
      guard (next = byte ']')
      return .again (items ++ [item.id])

/-- Reads an array, the opening bracket being ahead. -/
def Allocator.arrayNode (context : Context) : Trial Node := do
  let start ← position
  advance
  let items ← Trial.rounds (arrayRound context) []
  alloc.store (.array items) (← spanFrom start)

/-- Reads an operand without operators around it. -/
def Allocator.primary (context : Context) : Trial Node := do
  let start ← position
  let b ← current
  if b = byte '"' then alloc.stringNode .double
  else if b = byte '\'' then alloc.stringNode .single
  else if b = byte '\x60' then alloc.templateNode context
  else if b = byte '(' then alloc.parenNode context
  else if b = byte '[' then alloc.arrayNode context
  else if b = byte '\x7b' then
    skipBraced context
    alloc.store .verbatim (← spanFrom start)
  else if b = byte '<' && context.dialect.allowsElements then
    guard (← element context)
    alloc.store .verbatim (← spanFrom start)
  else if isDigit b then
    eatWhile fun d => isNameByte d || d == byte '.'
    alloc.store .verbatim (← spanFrom start)
  else if isNameStart b then
    eatName
    let name := String.ofList (← sliceFrom start)
    guard (!refusedWords.contains name)
    alloc.store (.ident name) (← spanFrom start)
  else failure

/-! ### Member access, calls and indices -/

/-- Reads the name of a property, which may be private. -/
def propertyName : Trial String := do
  let start ← position
  if (← current) = byte '#' then advance
  guard (isNameStart (← current))
  eatName
  return String.ofList (← sliceFrom start)

/-- Reads a member access after its dot. -/
def Allocator.memberNode (object : Node) : Trial Node := do
  let property ← propertyName
  alloc.store (.member object.id property) (← spanFrom object.span.start)

/-- Reads the next argument of a call or its end, given the arguments read so far. -/
def callRound (context : Context) (args : List ExprId) :
    Trial (Round (List ExprId) (List ExprId)) := do
  skipTrivia
  if (← current) = byte ')' then
    advance
    return .done args
  else
    let arg ← context.nested.region [',', ')']
    let next ← current
    if next = byte ',' then
      advance
      return .again (args ++ [arg.id])
    else
      guard (next = byte ')')
      return .again (args ++ [arg.id])

/-- Reads a call, the opening parenthesis being ahead. -/
def Allocator.callNode (context : Context) (callee : Node) : Trial Node := do
  advance
  let args ← Trial.rounds (callRound context) []
  alloc.store (.call callee.id args) (← spanFrom callee.span.start)

/-- Reads an index in brackets, the opening one being ahead. -/
def Allocator.indexNode (context : Context) (object : Node) : Trial Node := do
  advance
  discard (context.nested.region [']'] : Reading Node)
  guard ((← current) = byte ']')
  advance
  alloc.store .verbatim (← spanFrom object.span.start)

/-- Reads a call, an index or a member access after the `?.` of an optional chain. -/
def Allocator.optionalNode (context : Context) (node : Node) : Trial Node := do
  let b ← current
  if b = byte '(' then alloc.callNode context node
  else if b = byte '[' then alloc.indexNode context node
  else alloc.memberNode node

/-- Reads what may follow an operand, or ends with the operand if nothing of it follows. -/
def Allocator.suffixRound (context : Context) (node : Node) : Trial (Round Node Node) := do
  skipTrivia
  let b ← current
  let next ← peek
  if b = byte '.' && next = byte '.' then
    return .done node
  else if b = byte '.' then
    advance
    skipTrivia
    return .again (← alloc.memberNode node)
  else if b = byte '?' && next = byte '.' && !isDigit (← peekTwo) then
    advanceBy 2
    skipTrivia
    return .again (← alloc.optionalNode context node)
  else if b = byte '(' then return .again (← alloc.callNode context node)
  else if b = byte '[' then return .again (← alloc.indexNode context node)
  else if b = byte '!' && next ≠ byte '=' then
    advance
    return .again (← alloc.store .verbatim (← spanFrom node.span.start))
  else
    return .done node

/-- Passes over one of the operators `!`, `-`, `+` and `~` that starts no other operator, and
returns whether there is one. -/
def eatPrefixOperator : Reading Bool := do
  let b ← current
  if ['!', '-', '+', '~'].any (b == byte ·) && (← peek) ≠ byte '=' then
    advance
    return true
  else
    return false

/-- Passes over a word if it is a whole identifier, and returns whether it is.  If it is not,
the cursor ends where it was. -/
def eatKeyword (word : List Char) : Reading Bool := do
  if ← startsWith word then
    let start ← position
    eatName
    if (← sliceFrom start) = word then return true
    else
      moveTo start
      return false
  else
    return false

/-- Passes over one of several words, and returns whether there is one. -/
def eatKeywords : List (List Char) → Reading Bool
  | [] => return false
  | word :: words => do if ← eatKeyword word then return true else eatKeywords words

/-- Passes over an operator in front of an operand, and returns whether there is one. -/
def eatUnary : Reading Bool := do
  if ← eatPrefixOperator then return true
  else eatKeywords [['t', 'y', 'p', 'e', 'o', 'f'], ['v', 'o', 'i', 'd'], ['a', 'w', 'a', 'i', 't']]

/-- Reads an operand with the operators in front of it and all that follows it. -/
def Allocator.operand (context : Context) : Trial Node := do
  skipTrivia
  let start ← position
  if ← eatText ['.', '.', '.'] then
    skipTrivia
    let inner ← context.nested.operand
    alloc.store (.spread inner.id) ⟨start, inner.span.stop⟩
  else if ← eatUnary then
    skipTrivia
    let inner ← context.nested.operand
    alloc.store .verbatim ⟨start, inner.span.stop⟩
  else
    Trial.rounds (alloc.suffixRound context) (← alloc.primary context)

/-! ### Logical operators and conditionals -/

/-- Reads the next operand joined to `left` by `&&`. -/
def Allocator.andRound (context : Context) (left : Node) : Trial (Round Node Node) := do
  skipTrivia
  if (← startsWith ['&', '&']) && (← peekTwo) ≠ byte '=' then
    advanceBy 2
    skipTrivia
    let right ← alloc.operand context
    return .again (← alloc.storeLogical .and left right)
  else
    return .done left

/-- Reads operands joined by `&&`. -/
def Allocator.conjunction (context : Context) : Trial Node := do
  Trial.rounds (alloc.andRound context) (← alloc.operand context)

/-- The operator `||` or `??` of two bytes. -/
def orOperator? (b next : UInt8) : Option LogicalOp :=
  if b = byte '|' && next = byte '|' then some .or
  else if b = byte '?' && next = byte '?' then some .coalesce
  else none

/-- Reads the next conjunction joined to `left` by `||` or `??`. -/
def Allocator.orRound (context : Context) (left : Node) : Trial (Round Node Node) := do
  skipTrivia
  match orOperator? (← current) (← peek) with
  | some op =>
    if (← peekTwo) = byte '=' then return .done left
    else
      advanceBy 2
      skipTrivia
      let right ← alloc.conjunction context
      return .again (← alloc.storeLogical op left right)
  | none => return .done left

/-- Reads conjunctions joined by `||` and `??`. -/
def Allocator.disjunction (context : Context) : Trial Node := do
  Trial.rounds (alloc.orRound context) (← alloc.conjunction context)

/-- Whether the cursor is at the question mark of a conditional. -/
def atConditional : Reading Bool := do
  return (← current) = byte '?' && (← peek) ≠ byte '?' &&
    !((← peek) = byte '.' && !isDigit (← peekTwo))

/-- Reads an expression: a disjunction, or a conditional whose test is one. -/
def Allocator.expression (context : Context) : Trial Node := do
  let test ← alloc.disjunction context
  skipTrivia
  if ← atConditional then
    advance
    skipTrivia
    let consequent ← context.nested.expression
    skipTrivia
    guard ((← current) = byte ':')
    advance
    skipTrivia
    let alternate ← context.nested.expression
    alloc.store (.conditional test.id consequent.id alternate.id) (test.span.merge alternate.span)
  else
    return test

/-! ### Regions -/

/-- Reads an expression that extends to one of the given characters. -/
def Allocator.wholeExpression (context : Context) (stops : List Char) : Trial Node := do
  let node ← alloc.expression context
  skipTrivia
  let b ← current
  guard (!(← atEnd) && stops.any (b == byte ·))
  return node

/-- Reads the region up to one of the given characters as an expression, or, from its start
and without what has been found in the attempt, as code. -/
def Allocator.region (context : Context) (stops : List Char) : Reading Node := do
  skipTrivia
  let before ← get
  match ← (alloc.wholeExpression context stops).run with
  | some node => return node
  | none =>
    moveTo before.pos
    truncate before.elements.size before.arena.size
    discard (code context stops)
    alloc.store .verbatim (← spanFrom before.pos)

end UtilityClasses.Cursor
