import UtilityClasses.Scan.Expression

/-!
# Sources

A source is a document of text and tags, or it is code.
-/

namespace UtilityClasses.Scan

/-! ### Tying the knot -/

/-- The constructs inside others, when the text ahead is shorter than the budget. -/
def nested (dialect : Dialect) : Nat → Nested
  | 0 => Nested.none
  | budget + 1 => {
      code := fun stops state => code ⟨dialect, budget + 1, nested dialect budget⟩ stops state
      element := fun state => element ⟨dialect, budget + 1, nested dialect budget⟩ state
      region := fun stops state =>
        region ⟨dialect, budget + 1, nested dialect budget⟩ stops state
      expression := fun state => expression ⟨dialect, budget + 1, nested dialect budget⟩ state
      operand := fun state => operand ⟨dialect, budget + 1, nested dialect budget⟩ state }

/-- The context for a text of `length` characters. -/
def Context.ofLength (dialect : Dialect) (length : Nat) : Context :=
  ⟨dialect, length + 1, Scan.nested dialect length⟩

/-! ### Code -/

/-- Passes over the line in front of a program that names its interpreter, if there is one. -/
def interpreterLine : Scan Unit := do
  if ['#', '!'].isPrefixOf (← rest) then skipLine else return ()

/-- Passes over a source of code. -/
def script (context : Context) : Scan Unit := do
  interpreterLine
  discard (code context [])

/-! ### Documents -/

/-- Passes over the fenced code in front of a document, if there is any. -/
def frontmatter : Scan Unit := do
  let before ← get
  skipSpacing
  if ['-', '-', '-'].isPrefixOf (← rest) then
    skip 3
    if ← skipPast ['\n', '-', '-', '-'] then skipLine else return ()
  else
    set before

/-- Passes over an opening tag of a document, the `<` being ahead, and over the content of an
element whose content is not markup. -/
def documentElement (context : Context) : Scan Unit := do
  let start ← position
  skip 1
  let name ← takeWhile isTagNameChar
  if ← tag context (String.ofList name) start then return ()
  else
    match rawTextElements.find? (· = name.map Char.toLower) with
    | some raw => skip (rawText raw (← rest))
    | none => return ()

/-- Passes over what starts with `<` in a document: a comment, a closing tag, a declaration,
an instruction, an element, or a stray character. -/
def documentTag (context : Context) : Scan Unit := do
  match ← rest with
  | '<' :: '!' :: '-' :: '-' :: _ =>
    let start ← position
    skip 4
    if ← skipPast ['-', '-', '>'] then return () else fail .openComment start
  | _ :: c :: _ =>
    if c = '/' || c = '!' || c = '?' then
      skip 2
      discard (skipPast ['>'])
    else if c.isAlpha then documentElement context
    else skip 1
  | _ => skip 1

/-- Passes over what starts with a brace in the text of a document. -/
def documentBraces (context : Context) : Scan Unit := do
  if context.dialect.hasContainers then braced context
  else if context.dialect = .vue && ((← rest).drop 1).head? = some '\x7b' then
    skip 2
    discard (skipPast ['\x7d', '\x7d'])
  else skip 1

/-- Passes over a document. -/
def document (context : Context) : Nat → Scan Unit
  | 0 => exhaust
  | budget + 1 => do
    discard (takeWhile isTextChar)
    match ← rest with
    | [] => return ()
    | c :: _ =>
      if c = '<' then documentTag context else documentBraces context
      document context budget

/-- Passes over a source. -/
def source (context : Context) : Scan Unit := do
  if context.dialect = .astro then
    frontmatter
    document context context.budget
  else if context.dialect.isMarkup then document context context.budget
  else script context

end UtilityClasses.Scan

namespace UtilityClasses

/-- Reads a source of any size.  Elements are listed by their positions, whatever the order in
which their tags end.  That a source of 2 ^ 32 bytes or more is refused unread is left to
`Cursor.Allocator.parseSized?`. -/
def Markup.parse (dialect : Dialect) (text : String) : Except Scan.Stop Markup := do
  let chars := text.toList
  let context := Scan.Context.ofLength dialect chars.length
  let (_, found) ← (Scan.source context).run (Scan.State.initial chars)
  let elements := found.elements.toList.mergeSort fun a b => a.span.start ≤ b.span.start
  return ⟨elements, found.arena⟩

end UtilityClasses
