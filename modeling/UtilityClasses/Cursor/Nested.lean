import UtilityClasses.Cursor.Lexeme
import UtilityClasses.Dialect

/-!
# Nested constructs

Code, elements and expressions contain one another, and each is read in a context that says
how the constructs inside it are read.
-/

namespace UtilityClasses.Cursor

/-- How the constructs that can occur inside others are read. -/
structure Nested where
  /-- Passes over code up to one of the given characters outside all brackets. -/
  code : List Char → Reading Bool
  /-- Passes over an element, its content included. -/
  element : Reading Bool
  /-- Reads an expression that extends to one of the given characters. -/
  region : List Char → Reading Scan.Node
  /-- Reads an expression. -/
  expression : Trial Scan.Node
  /-- Reads an operand with the operators in front of it. -/
  operand : Trial Scan.Node

/-- No further constructs are read. -/
def Nested.none : Nested where
  code _ := stall
  element := stall
  region _ := stall
  expression := stall
  operand := stall

/-- What has to be known of the surroundings. -/
structure Context where
  dialect : Dialect
  nested : Nested

/-- Passes over code in braces, the opening brace being ahead. -/
def skipBraced (context : Context) : Reading Unit := do
  let start ← position
  advance
  if ← context.nested.code ['\x7d'] then advance else fail .openContainer start

end UtilityClasses.Cursor
