import UtilityClasses.Literal.Escape
import UtilityClasses.Scan.Code

/-!
# Expressions

The expressions that can hold a class list: literals, identifiers, member access, calls,
logical operators, conditionals, arrays, spreads and parentheses.  Everything else is not
dealt with, and then the smallest region around it whose end is known (a container, a call
argument, an array item, a template hole) is passed over as code and stored as one node.
-/

namespace UtilityClasses.Scan

/-! ### Operators -/

/-- The operator `||` or `??` that a text starts with.  Assignments are not meant. -/
def orOperator? : List Char → Option LogicalOp
  | '|' :: '|' :: rest => if rest.head? = some '=' then none else some .or
  | '?' :: '?' :: rest => if rest.head? = some '=' then none else some .coalesce
  | _ => none

/-- Whether a text starts with the operator `&&`, and not with an assignment. -/
def startsAnd : List Char → Bool
  | '&' :: '&' :: rest => rest.head? ≠ some '='
  | _ => false

/-- Whether a text starts with the `?.` of an optional chain.  In front of a digit the
question mark is that of a conditional. -/
def startsOptional : List Char → Bool
  | '?' :: '.' :: rest => !rest.head?.any Char.isDigit
  | _ => false

/-- Whether a text starts with the question mark of a conditional. -/
def startsConditional (text : List Char) : Bool :=
  text.head? = some '?' && (text.drop 1).head? ≠ some '?' && !startsOptional text

/-- The words that are operators in front of an operand. -/
def unaryWords : List String := ["typeof", "void", "await"]

/-- The words that start an expression that is not dealt with. -/
def refusedWords : List String := ["function", "class", "async", "new"]

/-- The length of the operator in front of an operand, zero if there is none. -/
def unaryLength (text : List Char) : Nat :=
  let word := text.takeWhile isNameChar
  if ['!', '-', '+', '~'].any (text.head? = some ·) && (text.drop 1).head? ≠ some '=' then 1
  else if unaryWords.contains (String.ofList word) then word.length
  else 0

/-! ### Operands -/

/-- Stores a logical expression that covers its operands. -/
def storeLogical (op : LogicalOp) (left right : Node) : Scan Node :=
  store (.logical op left.id right.id) (left.span.merge right.span)

/-- Reads a string literal, its opening quote being ahead. -/
def stringNode (quote : Quote) (delimiter : Char) : Scan Node := do
  let (body, span) ← stringLiteral delimiter
  store (.str quote (String.ofList (Literal.decode body))) span

/-- Reads the text and the holes of a template literal up to its end, given those read so
far, the literal having started at an earlier offset. -/
def templateFrom (context : Context) (start : Nat) :
    Nat → List String → List ExprId → Scan Node
  | 0, _, _ => exhaust
  | budget + 1, texts, holes => do
    let text ← take (templateText (← rest))
    let texts := texts ++ [String.ofList (Literal.decode text)]
    match ← rest with
    | '\x60' :: _ =>
      skip 1
      store (.template texts holes) (← spanFrom start)
    | [] => fail .openTemplate start
    | _ =>
      skip 2
      let hole ← context.nested.region ['\x7d']
      if (← rest).head? = some '\x7d' then
        skip 1
        templateFrom context start budget texts (holes ++ [hole.id])
      else
        fail .openTemplate start

/-- Reads a template literal, its opening quote being ahead. -/
def templateNode (context : Context) : Scan Node := do
  let start ← position
  skip 1
  templateFrom context start context.budget [] []

/-- Reads an expression in parentheses, the opening one being ahead. -/
def parenNode (context : Context) : Attempt Node := do
  let start ← position
  skip 1
  skipTrivia
  let inner ← context.nested.expression
  skipTrivia
  guard ((← rest).head? = some ')')
  skip 1
  store (.paren inner.id) (← spanFrom start)

/-- Reads the items of an array up to its end, given those read so far.  Holes are dropped. -/
def arrayItems (context : Context) : Nat → List ExprId → Attempt (List ExprId)
  | 0, _ => exhaust
  | budget + 1, items => do
    skipTrivia
    let first := (← rest).head?
    if first = some ']' then
      skip 1
      return items
    else if first = some ',' then
      skip 1
      arrayItems context budget items
    else
      let item ← context.nested.region [',', ']']
      let next := (← rest).head?
      guard (next = some ',' || next = some ']')
      skip 1
      if next = some ',' then arrayItems context budget (items ++ [item.id])
      else return items ++ [item.id]

/-- Reads an array, the opening bracket being ahead. -/
def arrayNode (context : Context) : Attempt Node := do
  let start ← position
  skip 1
  let items ← arrayItems context context.budget []
  store (.array items) (← spanFrom start)

/-- Reads an operand without operators around it. -/
def primary (context : Context) : Attempt Node := do
  let start ← position
  match ← rest with
  | [] => failure
  | c :: _ =>
    if c = '"' then stringNode .double c
    else if c = '\'' then stringNode .single c
    else if c = '\x60' then templateNode context
    else if c = '(' then parenNode context
    else if c = '[' then arrayNode context
    else if c = '\x7b' then
      braced context
      store .verbatim (← spanFrom start)
    else if c = '<' && context.dialect.allowsElements then
      guard (← element context)
      store .verbatim (← spanFrom start)
    else if c.isDigit then
      discard (takeWhile fun d => isNameChar d || d = '.')
      store .verbatim (← spanFrom start)
    else if isNameStart c then
      let name := String.ofList (← takeWhile isNameChar)
      guard (!refusedWords.contains name)
      store (.ident name) (← spanFrom start)
    else failure

/-! ### Member access, calls and indices -/

/-- Reads the name of a property, which may be private. -/
def propertyName : Attempt String := do
  let mark ← take (if (← rest).head? = some '#' then 1 else 0)
  guard ((← rest).head?.any isNameStart)
  return String.ofList (mark ++ (← takeWhile isNameChar))

/-- Reads a member access after its dot. -/
def memberNode (object : Node) : Attempt Node := do
  let property ← propertyName
  store (.member object.id property) (← spanFrom object.span.start)

/-- Reads the arguments of a call up to its end, given those read so far. -/
def callArguments (context : Context) : Nat → List ExprId → Attempt (List ExprId)
  | 0, _ => exhaust
  | budget + 1, args => do
    skipTrivia
    if (← rest).head? = some ')' then
      skip 1
      return args
    else
      let arg ← context.nested.region [',', ')']
      let next := (← rest).head?
      guard (next = some ',' || next = some ')')
      skip 1
      if next = some ',' then callArguments context budget (args ++ [arg.id])
      else return args ++ [arg.id]

/-- Reads a call, the opening parenthesis being ahead. -/
def callNode (context : Context) (callee : Node) : Attempt Node := do
  skip 1
  let args ← callArguments context context.budget []
  store (.call callee.id args) (← spanFrom callee.span.start)

/-- Reads an index in brackets, the opening one being ahead. -/
def indexNode (context : Context) (object : Node) : Attempt Node := do
  skip 1
  discard (context.nested.region [']'] : Scan Node)
  guard ((← rest).head? = some ']')
  skip 1
  store .verbatim (← spanFrom object.span.start)

/-- Reads a call, an index or a member access after the `?.` of an optional chain. -/
def optionalNode (context : Context) (node : Node) : Attempt Node := do
  let first := (← rest).head?
  if first = some '(' then callNode context node
  else if first = some '[' then indexNode context node
  else memberNode node

/-- Reads what may follow an operand: a member access, a call, an index, or the mark `!`.
Returns nothing if none of them follows. -/
def suffix? (context : Context) (node : Node) : Attempt (Option Node) := do
  let ahead ← rest
  let first := ahead.head?
  if first = some '.' && (ahead.drop 1).head? ≠ some '.' then
    skip 1
    skipTrivia
    return some (← memberNode node)
  else if startsOptional ahead then
    skip 2
    skipTrivia
    return some (← optionalNode context node)
  else if first = some '(' then return some (← callNode context node)
  else if first = some '[' then return some (← indexNode context node)
  else if first = some '!' && (ahead.drop 1).head? ≠ some '=' then
    skip 1
    return some (← store .verbatim (← spanFrom node.span.start))
  else
    return none

/-- Reads everything that follows an operand. -/
def suffixes (context : Context) : Nat → Node → Attempt Node
  | 0, _ => exhaust
  | budget + 1, node => do
    skipTrivia
    match ← suffix? context node with
    | some longer => suffixes context budget longer
    | none => return node

/-- Reads an operand with the operators in front of it and all that follows it. -/
def operand (context : Context) : Attempt Node := do
  skipTrivia
  let start ← position
  let ahead ← rest
  if ['.', '.', '.'].isPrefixOf ahead then
    skip 3
    skipTrivia
    let inner ← context.nested.operand
    store (.spread inner.id) ⟨start, inner.span.stop⟩
  else if 0 < unaryLength ahead then
    skip (unaryLength ahead)
    skipTrivia
    let inner ← context.nested.operand
    store .verbatim ⟨start, inner.span.stop⟩
  else
    suffixes context context.budget (← primary context)

/-! ### Logical operators and conditionals -/

/-- Reads the operands joined to `left` by `&&`. -/
def andChain (context : Context) : Nat → Node → Attempt Node
  | 0, _ => exhaust
  | budget + 1, left => do
    skipTrivia
    if startsAnd (← rest) then
      skip 2
      skipTrivia
      let right ← operand context
      andChain context budget (← storeLogical .and left right)
    else
      return left

/-- Reads operands joined by `&&`. -/
def conjunction (context : Context) : Attempt Node := do
  andChain context context.budget (← operand context)

/-- Reads the conjunctions joined to `left` by `||` and `??`. -/
def orChain (context : Context) : Nat → Node → Attempt Node
  | 0, _ => exhaust
  | budget + 1, left => do
    skipTrivia
    match orOperator? (← rest) with
    | some op =>
      skip 2
      skipTrivia
      let right ← conjunction context
      orChain context budget (← storeLogical op left right)
    | none => return left

/-- Reads conjunctions joined by `||` and `??`. -/
def disjunction (context : Context) : Attempt Node := do
  orChain context context.budget (← conjunction context)

/-- Reads an expression: a disjunction, or a conditional whose test is one. -/
def expression (context : Context) : Attempt Node := do
  let test ← disjunction context
  skipTrivia
  if startsConditional (← rest) then
    skip 1
    skipTrivia
    let consequent ← context.nested.expression
    skipTrivia
    guard ((← rest).head? = some ':')
    skip 1
    skipTrivia
    let alternate ← context.nested.expression
    store (.conditional test.id consequent.id alternate.id) (test.span.merge alternate.span)
  else
    return test

/-! ### Regions -/

/-- Reads an expression that extends to one of the given characters. -/
def wholeExpression (context : Context) (stops : List Char) : Attempt Node := do
  let node ← expression context
  skipTrivia
  guard ((← rest).head?.any stops.contains)
  return node

/-- Reads the region up to one of the given characters as an expression, or, from its start
and as if nothing had been tried, as code. -/
def region (context : Context) (stops : List Char) : Scan Node := do
  skipTrivia
  let before ← get
  match ← (wholeExpression context stops).run with
  | some node => return node
  | none =>
    set before
    discard (code context stops)
    store .verbatim (← spanFrom before.pos)

end UtilityClasses.Scan
