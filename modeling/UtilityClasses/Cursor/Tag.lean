import UtilityClasses.Cursor.Nested

/-!
# Tags

The part of an opening tag after its name.
-/

namespace UtilityClasses.Cursor

/-- Reads an attribute value in quotes, the opening quote being ahead. -/
def quotedValue (quote : Quote) (delimiter : Char) (name : String) : Reading Literal := do
  let start ← position
  advance
  if ← skipPast [delimiter] then
    let value ← slice (start + 1) ((← position) - 1)
    return ⟨quote, String.ofList value, ← spanFrom start⟩
  else
    fail (.openValue name) start

/-- Passes over a character of a value without quotes. -/
def bareRound : Reading (Round Unit Unit) := do
  let b ← current
  if (← atEnd) || isSpacing b || b = byte '>' || (b = byte '/' && (← peek) = byte '>') then
    return .done ()
  else
    advanceChar
    return .again ()

/-- Refuses the source because no value is found at an offset. -/
def failMissing {α : Type} (name : String) (start : Nat) : Reading α :=
  throw (.refused ⟨.missingValue name, ⟨start, start⟩⟩)

/-- Reads an attribute value without quotes. -/
def unquotedValue (name : String) : Reading Literal := do
  let start ← position
  rounds (fun _ => bareRound) ()
  if (← position) = start then failMissing name start
  else
    let value ← sliceFrom start
    return ⟨.bare, String.ofList value, ← spanFrom start⟩

/-- Reads an expression in braces, the opening brace being ahead. -/
def container (context : Context) : Reading AttrValue := do
  let start ← position
  advance
  let node ← context.nested.region ['\x7d']
  if (← current) = byte '\x7d' then
    advance
    return .container (← spanFrom start) node.id
  else
    fail .openContainer start

/-- Reads the value of an attribute. -/
def attributeValue (context : Context) (name : String) : Reading (Option AttrValue) := do
  let start ← position
  let b ← current
  if b = byte '"' then
    return some (.literal (← quotedValue .double '"' name))
  else if b = byte '\'' then
    return some (.literal (← quotedValue .single '\'' name))
  else if b = byte '\x7b' && context.dialect.hasContainers then
    return some (← container context)
  else if b = byte '<' && context.dialect.allowsElements then
    if ← context.nested.element then return none
    else failMissing name start
  else if context.dialect.isMarkup then
    return some (.literal (← unquotedValue name))
  else
    failMissing name start

/-- Reads an attribute after its name, which started at an earlier offset.  If no value
follows, the cursor goes back to the end of the name. -/
def attributeTail (context : Context) (name : String) (start : Nat) : Reading Attribute := do
  let nameSpan ← spanFrom start
  let afterName ← position
  eatSpacing
  if (← current) = byte '=' then
    advance
    eatSpacing
    let value ← attributeValue context name
    return ⟨name, nameSpan, value, ← spanFrom start⟩
  else
    moveTo afterName
    return ⟨name, nameSpan, none, nameSpan⟩

/-- Reads an attribute, or passes over a character that cannot start one. -/
def attribute? (context : Context) : Reading (Option Attribute) := do
  let start ← position
  eatWhile isAttributeNameByte
  if (← position) = start then
    advanceChar
    return none
  else
    let name ← sliceFrom start
    return some (← attributeTail context (String.ofList name) start)

/-- Reads the next attribute of a tag or its end, given the attributes read so far. -/
def tagRound (context : Context) (name : String) (start : Nat) (attributes : List Attribute) :
    Reading (Round (List Attribute) (Bool × List Attribute)) := do
  eatSpacing
  let b ← current
  if b = byte '>' then
    advance
    return .done (false, attributes)
  else if b = byte '/' && (← peek) = byte '>' then
    advanceBy 2
    return .done (true, attributes)
  else if b = byte '\x7b' && context.dialect.hasContainers then
    skipBraced context
    return .again attributes
  else if ← atEnd then
    fail (.openTag name) start
  else if b = byte '/' && !context.dialect.isMarkup &&
      ((← peek) = byte '*' || (← peek) = byte '/') then
    discard skipComment
    return .again attributes
  else
    let attr ← attribute? context
    return .again (attributes ++ attr.toList)

/-- Reads a tag after its name and records the element, which started at an earlier offset.
Returns whether the tag closes itself. -/
def tag (context : Context) (name : String) (start : Nat) : Reading Bool := do
  let (selfClosing, attributes) ← rounds (tagRound context name start) []
  record ⟨name, ← spanFrom start, attributes⟩
  return selfClosing

end UtilityClasses.Cursor
