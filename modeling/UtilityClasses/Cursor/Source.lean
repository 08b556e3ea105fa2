import UtilityClasses.Cursor.Expression
import UtilityClasses.Scan.Source

/-!
# Sources

A source is a document of text and tags, or it is code.
-/

namespace UtilityClasses.Cursor

open Scan (rawTextElements)

/-! ### Tying the knot -/

/-- The constructs inside others, when they are nested no deeper than `depth`. -/
def Allocator.nested (alloc : Allocator) (dialect : Dialect) : Nat → Nested
  | 0 => Nested.none
  | depth + 1 => {
      code := fun stops source state =>
        code ⟨dialect, alloc.nested dialect depth⟩ stops source state
      element := fun source state => element ⟨dialect, alloc.nested dialect depth⟩ source state
      region := fun stops source state =>
        alloc.region ⟨dialect, alloc.nested dialect depth⟩ stops source state
      expression := fun source state =>
        alloc.expression ⟨dialect, alloc.nested dialect depth⟩ source state
      operand := fun source state =>
        alloc.operand ⟨dialect, alloc.nested dialect depth⟩ source state }

/-! ### Code -/

/-- Passes over a source of code. -/
def script (context : Context) : Reading Unit := do
  if ← startsWith ['#', '!'] then eatLine
  discard (code context [])

/-! ### Documents -/

/-- Passes over the fenced code in front of a document, if there is any. -/
def frontmatter : Reading Unit := do
  let start ← position
  eatSpacing
  if ← eatText ['-', '-', '-'] then
    if ← skipPast ['\n', '-', '-', '-'] then eatLine
  else
    moveTo start

/-- Looks for the next closing tag and goes back to its start if it has the right name. -/
def rawTextRound (name : List Char) : Reading (Round Unit Unit) := do
  if ← skipPast ['<', '/'] then
    if ← startsWithFolded name then
      moveTo ((← position) - 2)
      return .done ()
    else
      return .again ()
  else
    return .done ()

/-- Passes over an opening tag of a document, the `<` being ahead, and over the content of an
element whose content is not markup. -/
def documentElement (context : Context) : Reading Unit := do
  let start ← position
  advance
  let nameStart ← position
  eatWhile isTagNameByte
  let name ← sliceFrom nameStart
  if ← tag context (String.ofList name) start then return ()
  else
    match rawTextElements.find? (· = name.map Char.toLower) with
    | some raw => rounds (fun _ => rawTextRound raw) ()
    | none => return ()

/-- Passes over what starts with `<` in a document. -/
def documentTag (context : Context) : Reading Unit := do
  let start ← position
  if ← eatText ['<', '!', '-', '-'] then
    if ← skipPast ['-', '-', '>'] then return () else fail .openComment start
  else
    let next ← peek
    if next = byte '/' || next = byte '!' || next = byte '?' then
      advanceBy 2
      discard (skipPast ['>'])
    else if isAlpha next then documentElement context
    else advance

/-- Passes over what starts with a brace in the text of a document. -/
def documentBraces (context : Context) : Reading Unit := do
  if context.dialect.hasContainers then skipBraced context
  else if context.dialect = .vue && (← peek) = byte '\x7b' then
    advanceBy 2
    discard (skipPast ['\x7d', '\x7d'])
  else advance

/-- Passes over text of a document and what follows it. -/
def documentRound (context : Context) : Reading (Round Unit Unit) := do
  let b ← seek [byte '<', byte '\x7b']
  if b = byte '<' then
    documentTag context
    return .again ()
  else if b = byte '\x7b' then
    documentBraces context
    return .again ()
  else
    return .done ()

/-- Passes over a document. -/
def document (context : Context) : Reading Unit := do
  if context.dialect = .astro then frontmatter
  rounds (fun _ => documentRound context) ()

/-- Passes over a source. -/
def source (context : Context) : Reading Unit :=
  if context.dialect.isMarkup then document context else script context

/-! ### Results -/

/-- Reads a source by its bytes, storing expressions in a given way.  Constructs may be nested as
deep as there are bytes. -/
def Allocator.parse (alloc : Allocator) (dialect : Dialect) (text : String) :
    Except Halt Markup := do
  let chars := text.toList
  let context : Context := ⟨dialect, alloc.nested dialect (Text.byteSize chars)⟩
  let (_, found) ← source context chars State.initial
  let elements := found.elements.toList.mergeSort fun a b => a.span.start ≤ b.span.start
  return ⟨elements, found.arena⟩

/-- Reads a source unless it is too large: its offsets have 32 bits. -/
def Allocator.parseSized? (alloc : Allocator) (dialect : Dialect) (text : String) :
    Option (Except Halt Markup) :=
  if text.utf8ByteSize ≤ maxIndex then some (alloc.parse dialect text) else none

/-- Reads a source of any size by its bytes, storing any number of expressions.  That a source is
refused for its size is left to `Allocator.parseSized?`. -/
def parse (dialect : Dialect) (text : String) : Except Halt Markup :=
  Allocator.unbounded.parse dialect text

end UtilityClasses.Cursor
