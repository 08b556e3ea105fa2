import UtilityClasses.Span

/-!
# Errors in a source

A source is refused as a whole at the first construct that is left open.  A source that is too
large for offsets of 32 bits is refused before it is read; that refusal is not one of these
errors, it is the missing result of `Cursor.Allocator.parseSized?`.
-/

namespace UtilityClasses

/-- What is wrong with a source. -/
inductive SourceError.Cause where
  | openString
  | openTemplate
  | openComment
  | openTag (name : String)
  | openValue (name : String)
  | missingValue (name : String)
  | openContainer
  | openElement (name : String)
  deriving DecidableEq, Repr

/-- What is wrong with a source, and where.  The span starts at the construct that was left
open. -/
structure SourceError where
  cause : SourceError.Cause
  span : Span
  deriving DecidableEq, Repr

/-- The error in words. -/
def SourceError.message (error : SourceError) : String :=
  match error.cause with
  | .openString => "unterminated string literal"
  | .openTemplate => "unterminated template literal"
  | .openComment => "unterminated comment"
  | .openTag name => "unterminated tag `<" ++ name ++ "`"
  | .openValue name => "unterminated value for attribute `" ++ name ++ "`"
  | .missingValue name => "expected a value after `" ++ name ++ "=`"
  | .openContainer => "unterminated `\x7b...\x7d` expression"
  | .openElement name => "element `<" ++ name ++ ">` is never closed"

/-- A few words for the place where the error starts. -/
def SourceError.label (error : SourceError) : String :=
  match error.cause with
  | .openString | .openTemplate | .openComment | .openValue _ => "opened here"
  | .openTag _ => "tag opened here"
  | .missingValue _ => "value expected here"
  | .openContainer => "expression opened here"
  | .openElement _ => "element opened here"

end UtilityClasses
