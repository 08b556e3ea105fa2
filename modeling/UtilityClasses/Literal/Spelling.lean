import UtilityClasses.Text.Quoted
import UtilityClasses.Tree.Expr

/-!
# Spelling literals

How a text is written as a string literal in code, and as an attribute value.
-/

namespace UtilityClasses.Literal

/-- Whether a character is a control character. -/
def isControl (c : Char) : Bool :=
  c.toNat < 0x20 || (0x7F ≤ c.toNat && c.toNat < 0xA0)

/-- A character of a string literal between the delimiters `quote`. -/
def spellChar (quote c : Char) : List Char :=
  if c = '\\' then ['\\', '\\']
  else if c = '\n' then ['\\', 'n']
  else if c = '\r' then ['\\', 'r']
  else if c = '\u2028' then ['\\', 'u', '2', '0', '2', '8']
  else if c = '\u2029' then ['\\', 'u', '2', '0', '2', '9']
  else if c = quote then ['\\', c]
  else if isControl c then ['\\', 'u', '\x7b'] ++ Text.hexadecimal c.toNat ++ ['\x7d']
  else [c]

/-- A text as a string literal in code. -/
def spell (quote : Char) (value : List Char) : List Char :=
  quote :: value.flatMap (spellChar quote) ++ [quote]

/-- A text as a string literal in code, between the delimiters that the quote names; a bare
quote names double quotes. -/
def inCode (quote : Quote) (value : String) : String :=
  String.ofList (spell (quote.char?.getD '"') value.toList)

/-- A text as an attribute value with given delimiters.  Attribute values have no escapes. -/
def inAttribute (quote : Quote) (value : String) : String :=
  match quote.char? with
  | some q => String.ofList (q :: value.toList ++ [q])
  | none => value

/-- A text as an attribute value with delimiters of our choice: double quotes, single quotes
if the text has a double quote, and a container if it has both. -/
def asAttribute (value : String) : String :=
  if !value.toList.contains '"' then inAttribute .double value
  else if !value.toList.contains '\'' then inAttribute .single value
  else "\x7b" ++ inCode .double value ++ "\x7d"

end UtilityClasses.Literal
