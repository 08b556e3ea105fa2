import UtilityClasses.Span
import UtilityClasses.Text.Offset

/-!
# Replacements

Changes to a source are replacements of spans by texts.  `splice` applies a list of them and
copies everything else.
-/

namespace UtilityClasses

/-- The shape of what a replacement replaces. -/
inductive Target where
  /-- A literal that is the value of an attribute. -/
  | attributeLiteral
  /-- A container that holds a template without holes. -/
  | staticTemplate
  /-- A string among the arguments of a helper. -/
  | argumentLiteral
  /-- A template among the arguments of a helper. -/
  | argumentTemplate
  /-- The right operand of `&&` among the arguments of a helper. -/
  | argumentRight
  deriving DecidableEq, Repr

/-- The name of a shape. -/
def Target.name : Target → String
  | attributeLiteral => "attribute-literal"
  | staticTemplate => "static-template-literal"
  | argumentLiteral => "call-argument-literal"
  | argumentTemplate => "call-argument-template"
  | argumentRight => "call-argument-logical-right"

/-- A text to put in place of a span of the source. -/
structure Replacement where
  target : Target
  span : Span
  text : String
  deriving DecidableEq, Repr

/-- A replacement that has been made: what it took out of the source, and where its text is in
the result. -/
structure Edit where
  target : Target
  replaced : Span
  output : Span
  deriving DecidableEq, Repr

/-- A source with replacements made. -/
structure Spliced where
  code : String
  edits : List Edit
  deriving DecidableEq, Repr

namespace Replacement

/-- Divides a text that starts at the byte offset `copied` into what is before a span, what is
in it, and what is after it.  There is no division if the span starts earlier, ends before it
starts, reaches past the text, or cuts a character. -/
def divide (copied : Nat) (text : List Char) (span : Span) :
    Option (List Char × List Char × List Char) := do
  guard (copied ≤ span.start && span.start ≤ span.stop)
  let (before, later) ← Text.cutAt (span.start - copied) text
  let (inside, after) ← Text.cutAt (span.stop - span.start) later
  some (before, inside, after)

/-- Makes replacements, which come in order, in what is left of a source: `copied` bytes of it
have been dealt with, and `written` bytes of the result are there.  A replacement that cannot
be made, or that changes nothing, is passed over. -/
def spliceFrom (copied written : Nat) (text : List Char) :
    List Replacement → List Char × List Edit
  | [] => (text, [])
  | replacement :: later =>
    match divide copied text replacement.span with
    | none => spliceFrom copied written text later
    | some (before, inside, after) =>
      let new := replacement.text.toList
      if inside = new then spliceFrom copied written text later
      else
        let start := written + Text.byteSize before
        let stop := start + Text.byteSize new
        let (code, edits) := spliceFrom replacement.span.stop stop after later
        (before ++ new ++ code, ⟨replacement.target, replacement.span, ⟨start, stop⟩⟩ :: edits)

/-- Replacements by span; among those with the same span the order is kept. -/
def inOrder (replacements : List Replacement) : List Replacement :=
  replacements.mergeSort fun a b => !b.span.precedes a.span

/-- Makes replacements in a source. -/
def splice (source : String) (replacements : List Replacement) : Spliced :=
  let (code, edits) := spliceFrom 0 0 source.toList (inOrder replacements)
  ⟨String.ofList code, edits⟩

end Replacement

end UtilityClasses
