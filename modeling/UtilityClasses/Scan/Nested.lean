import UtilityClasses.Scan.Step
import UtilityClasses.Dialect

/-!
# Nested constructs

Code, elements and expressions contain one another.  The scan of each is written in terms of
a `Context`, which says how the constructs inside it are scanned.  A context bounds the
number of repetitions of a loop by its budget.  Every construct is entered through the
context of the one around it only after at least one character of that one has been passed,
so a budget larger than the length of the text ahead is never used up.
-/

namespace UtilityClasses.Scan

/-- The scans of the constructs that can occur inside others. -/
structure Nested where
  /-- Passes over code up to one of the given characters outside all brackets.  Returns
  whether it occurs. -/
  code : List Char → Scan Bool
  /-- Passes over an element, its content included.  Returns whether there is one. -/
  element : Scan Bool
  /-- Reads an expression that extends to one of the given characters. -/
  region : List Char → Scan Node
  /-- Reads an expression. -/
  expression : Attempt Node
  /-- Reads an operand with the operators in front of it. -/
  operand : Attempt Node

/-- The scans that fail because no budget is left. -/
def Nested.none : Nested where
  code _ := exhaust
  element := exhaust
  region _ := exhaust
  expression := exhaust
  operand := exhaust

/-- What a scan has to know of its surroundings. -/
structure Context where
  dialect : Dialect
  budget : Nat
  nested : Nested

/-- Passes over code in braces, the opening brace being ahead. -/
def braced (context : Context) : Scan Unit := do
  let start ← position
  skip 1
  if ← context.nested.code ['\x7d'] then skip 1 else fail .openContainer start

end UtilityClasses.Scan
