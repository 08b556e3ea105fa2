import UtilityClasses.Scan.Nested

/-!
# Tags

The part of an opening tag after its name, which documents and code have in common.
-/

namespace UtilityClasses.Scan

/-- Reads an attribute value in quotes, the opening quote being ahead. -/
def quotedValue (quote : Quote) (delimiter : Char) (name : String) : Scan Literal := do
  let start ← position
  skip 1
  let value ← takeWhile (· ≠ delimiter)
  if (← rest).isEmpty then fail (.openValue name) start
  else
    skip 1
    return ⟨quote, String.ofList value, ← spanFrom start⟩

/-- Reads an attribute value without quotes. -/
def unquotedValue (name : String) : Scan Literal := do
  let start ← position
  let value ← take (bareValue (← rest))
  if value.isEmpty then fail (.missingValue name) start
  else return ⟨.bare, String.ofList value, ← spanFrom start⟩

/-- Reads an expression in braces, the opening brace being ahead. -/
def container (context : Context) : Scan AttrValue := do
  let start ← position
  skip 1
  let node ← context.nested.region ['\x7d']
  if (← rest).head? = some '\x7d' then
    skip 1
    return .container (← spanFrom start) node.id
  else
    fail .openContainer start

/-- Reads the value of an attribute.  An element can be a value in code; it is recorded, and
the attribute has no value of its own. -/
def attributeValue (context : Context) (name : String) : Scan (Option AttrValue) := do
  let start ← position
  let first := (← rest).head?
  if first = some '"' then
    return some (.literal (← quotedValue .double '"' name))
  else if first = some '\'' then
    return some (.literal (← quotedValue .single '\'' name))
  else if first = some '\x7b' && context.dialect.hasContainers then
    return some (← container context)
  else if first = some '<' && context.dialect.allowsElements then
    if ← context.nested.element then return none
    else fail (.missingValue name) start
  else if context.dialect.isMarkup then
    return some (.literal (← unquotedValue name))
  else
    fail (.missingValue name) start

/-- Reads an attribute after its name, which started at an earlier offset.  Blanks after the
name are passed over only if a value follows. -/
def attributeTail (context : Context) (name : String) (start : Nat) : Scan Attribute := do
  let nameSpan ← spanFrom start
  let afterName ← get
  skipSpacing
  if (← rest).head? = some '=' then
    skip 1
    skipSpacing
    let value ← attributeValue context name
    return ⟨name, nameSpan, value, ← spanFrom start⟩
  else
    set afterName
    return ⟨name, nameSpan, none, nameSpan⟩

/-- Reads an attribute, or passes over a character that cannot start one. -/
def attribute? (context : Context) : Scan (Option Attribute) := do
  let start ← position
  let name := String.ofList (← takeWhile isAttributeNameChar)
  if name.isEmpty then
    skip 1
    return none
  else
    return some (← attributeTail context name start)

/-- Passes over what may stand between attributes: blanks, and comments in code. -/
def betweenAttributes (dialect : Dialect) : Scan Unit :=
  if dialect.isMarkup then skipSpacing else skipTrivia

/-- Reads the attributes of a tag and its end, given those read so far.  Returns whether the
tag closes itself, and the attributes. -/
def tagTail (context : Context) (name : String) (start : Nat) :
    Nat → List Attribute → Scan (Bool × List Attribute)
  | 0, _ => exhaust
  | budget + 1, attributes => do
    betweenAttributes context.dialect
    match ← rest with
    | [] => fail (.openTag name) start
    | '>' :: _ =>
      skip 1
      return (false, attributes)
    | '/' :: '>' :: _ =>
      skip 2
      return (true, attributes)
    | c :: _ =>
      if c = '\x7b' && context.dialect.hasContainers then
        braced context
        tagTail context name start budget attributes
      else
        let attr ← attribute? context
        tagTail context name start budget (attributes ++ attr.toList)

/-- Reads a tag after its name and records the element, which started at an earlier offset.
Returns whether the tag closes itself. -/
def tag (context : Context) (name : String) (start : Nat) : Scan Bool := do
  let (selfClosing, attributes) ← tagTail context name start context.budget []
  record ⟨name, ← spanFrom start, attributes⟩
  return selfClosing

end UtilityClasses.Scan
