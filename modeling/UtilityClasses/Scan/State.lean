import UtilityClasses.SourceError
import UtilityClasses.Text.Offset
import UtilityClasses.Tree.Element

/-!
# Scans

A scan reads a source from left to right.  It knows the text that is left, its byte offset,
and the elements and expressions it has found.  `take` is the only step that moves forward,
and going back is putting an earlier state in place of the current one; elements and
expressions are only ever added at the end.
-/

namespace UtilityClasses

/-- How far a scan has come and what it has found. -/
structure Scan.State where
  rest : List Char
  pos : Nat
  elements : Array Element
  arena : Arena

/-- Why a scan ends without a result.  The steps of a scan are bounded in number, and
`exhausted` says that the bound was met. -/
inductive Scan.Stop where
  | error (error : SourceError)
  | exhausted
  deriving DecidableEq

/-- A step of a scan. -/
abbrev Scan := StateT Scan.State (Except Scan.Stop)

/-- A step of a scan that may find something it does not deal with.  It then has no result,
and whoever tried it decides where to go on. -/
abbrev Attempt := OptionT Scan

namespace Scan

/-- The state at the start of a source. -/
def State.initial (source : List Char) : State :=
  ⟨source, 0, #[], #[]⟩

/-- Gives up because the bound on the number of steps is met. -/
def exhaust {α : Type} : Scan α :=
  throw .exhausted

/-- The text that is left. -/
def rest : Scan (List Char) :=
  State.rest <$> get

/-- The byte offset of the text that is left. -/
def position : Scan Nat :=
  State.pos <$> get

/-- Passes over `count` characters, or over all that are left, and returns them. -/
def take (count : Nat) : Scan (List Char) := do
  let state ← get
  let taken := state.rest.take count
  set { state with rest := state.rest.drop count, pos := state.pos + Text.byteSize taken }
  return taken

/-- Passes over `count` characters. -/
def skip (count : Nat) : Scan Unit :=
  discard (take count)

/-- Passes over the longest run of characters of a class and returns it. -/
def takeWhile (kind : Char → Bool) : Scan (List Char) := do
  take ((← rest).takeWhile kind).length

/-- The span from an earlier offset to the current one. -/
def spanFrom (start : Nat) : Scan Span := do
  return ⟨start, ← position⟩

/-- Refuses the source for something that started at an earlier offset. -/
def fail {α : Type} (cause : SourceError.Cause) (start : Nat) : Scan α := do
  throw (.error ⟨cause, ← spanFrom start⟩)

/-- Adds an element to those found. -/
def record (element : Element) : Scan Unit :=
  modify fun state => { state with elements := state.elements.push element }

/-- An expression that has been stored. -/
structure Node where
  id : ExprId
  span : Span

/-- Adds an expression to those found. -/
def store (shape : ExprShape) (span : Span) : Scan Node :=
  modifyGet fun state =>
    (⟨state.arena.size, span⟩, { state with arena := state.arena.push ⟨shape, span⟩ })

end Scan

end UtilityClasses
