import UtilityClasses.Text.Printable

/-!
# Quoted text

The form in which a text is shown inside a message: between quotes, with every character
that would be hard to see, or would end the quotation, written as an escape.
-/

namespace UtilityClasses.Text

/-- The digits of a number in base sixteen, in small letters and without padding. -/
def hexadecimal (n : Nat) : List Char :=
  Nat.toDigits 16 n

/-- A character as it stands between the quotes `quote`. -/
def shownChar (quote c : Char) : List Char :=
  if c = '\x00' then ['\\', '0']
  else if c = '\t' then ['\\', 't']
  else if c = '\r' then ['\\', 'r']
  else if c = '\n' then ['\\', 'n']
  else if c = '\\' || c = quote then ['\\', c]
  else if isExtending c || !isPrintable c then
    ['\\', 'u', '\x7b'] ++ hexadecimal c.toNat ++ ['\x7d']
  else [c]

/-- A text between double quotes. -/
def quoted (text : String) : String :=
  String.ofList ('"' :: text.toList.flatMap (shownChar '"') ++ ['"'])

/-- A character between single quotes. -/
def quotedChar (c : Char) : String :=
  String.ofList ('\'' :: shownChar '\'' c ++ ['\''])

end UtilityClasses.Text
