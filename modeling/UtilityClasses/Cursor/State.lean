import UtilityClasses.Cursor.Byte
import UtilityClasses.Scan.State

/-!
# Cursors

A cursor reads a source by byte offsets.  It may be put at any offset, further ahead or back,
and everything it looks up is a byte.  Nothing ensures that an offset is that of a character:
`moveTo` refuses to put the cursor into a character or past the end, `slice` refuses to cut
there, and `rounds` refuses to go on with a loop that has not moved the cursor.  The offset that
is checked is the one where a step ends: a run of bytes is passed in one jump, and the offsets
within the run, from which nothing is ever cut, are not looked at.  So a reading that ends with a
result, or because something is wrong with its source, has ended every step at a character of the
source and has come further with every round.
-/

namespace UtilityClasses.Cursor

/-- Why a reading ends without a result. -/
inductive Halt where
  | refused (error : SourceError)
  /-- The cursor was put into a character or past the end. -/
  | misplaced
  /-- A text was cut inside a character, past the end, or from a later offset to an earlier
  one. -/
  | missliced
  /-- A loop went on from where it was, or constructs were nested deeper than there are bytes. -/
  | stalled
  deriving DecidableEq

/-- Where the cursor is, and what has been found. -/
structure State where
  pos : Nat
  elements : Array Element
  arena : Arena

/-- The state at the start of a source. -/
def State.initial : State :=
  ⟨0, #[], #[]⟩

/-- A step of reading a source. -/
abbrev Reading := ReaderT (List Char) (StateT State (Except Halt))

/-- A step of reading that may find something it does not deal with. -/
abbrev Trial := OptionT Reading

/-- Gives up because nothing would ever come to an end. -/
def stall {α : Type} : Reading α :=
  throw .stalled

/-! ### Looking at bytes -/

/-- The offset of the cursor. -/
def position : Reading Nat :=
  State.pos <$> get

/-- The number of bytes of the source. -/
def size : Reading Nat :=
  Text.byteSize <$> read

/-- Whether the cursor is at the end of the source. -/
def atEnd : Reading Bool := do
  return (← size) ≤ (← position)

/-- The byte `count` bytes ahead, zero past the end. -/
def byteAhead (count : Nat) : Reading UInt8 := do
  return (encode (← read))[(← position) + count]?.getD 0

/-- The byte at the cursor, zero at the end. -/
def current : Reading UInt8 :=
  byteAhead 0

/-- The byte after that at the cursor. -/
def peek : Reading UInt8 :=
  byteAhead 1

/-- The byte after the next. -/
def peekTwo : Reading UInt8 :=
  byteAhead 2

/-! ### Moving -/

/-- Puts the cursor at an offset, which has to be that of a character or the end.  Only the
offset where the cursor is put is checked, not those it jumps over. -/
def moveTo (pos : Nat) : Reading Unit := do
  if (Text.cutAt pos (← read)).isSome then modify fun state => { state with pos := pos }
  else throw .misplaced

/-- Passes over `count` bytes, or over all that are left. -/
def advanceBy (count : Nat) : Reading Unit := do
  moveTo (min ((← position) + count) (← size))

/-- Passes over a byte. -/
def advance : Reading Unit :=
  advanceBy 1

/-- Passes over a character, of as many bytes as the first one tells. -/
def advanceChar : Reading Unit := do
  advanceBy (width (← current))

/-- Passes over the longest run of bytes of a class in one jump.  The end of the run has to be
that of a character; where the characters in it end is not checked. -/
def eatWhile (kind : UInt8 → Bool) : Reading Unit := do
  let pos ← position
  moveTo (pos + (((encode (← read)).drop pos).takeWhile kind).length)

/-- Passes over blanks. -/
def eatSpacing : Reading Unit :=
  eatWhile isSpacing

/-! ### Cutting and searching -/

/-- The text between two offsets. -/
def slice (start stop : Nat) : Reading (List Char) := do
  match Text.cutAt stop (← read) with
  | some (before, _) =>
    match Text.cutAt start before with
    | some (_, inside) => return inside
    | none => throw .missliced
  | none => throw .missliced

/-- The text from an earlier offset to the cursor. -/
def sliceFrom (start : Nat) : Reading (List Char) := do
  slice start (← position)

/-- The bytes of the text from the cursor to the end. -/
def ahead : Reading (List UInt8) := do
  return encode (← slice (← position) (← size))

/-- Whether a text lies ahead. -/
def startsWith (text : List Char) : Reading Bool := do
  return (encode text).isPrefixOf (← ahead)

/-- Whether a text lies ahead, capital and small letters being the same. -/
def startsWithFolded (text : List Char) : Reading Bool := do
  return ((encode text).map toLower).isPrefixOf ((← ahead).map toLower)

/-- Passes over a text if it lies ahead, and returns whether it does. -/
def eatText (text : List Char) : Reading Bool := do
  if ← startsWith text then
    advanceBy (encode text).length
    return true
  else
    return false

/-- The offset of the first occurrence of a needle. -/
def firstMatch (needle : List UInt8) : List UInt8 → Option Nat
  | [] => if needle.isEmpty then some 0 else none
  | b :: rest =>
    if needle.isPrefixOf (b :: rest) then some 0 else (firstMatch needle rest).map (· + 1)

/-- Passes over everything up to the end of a text that lies ahead, or over the whole source if
it does not occur.  Returns whether it does. -/
def skipPast (text : List Char) : Reading Bool := do
  match firstMatch (encode text) (← ahead) with
  | some offset =>
    moveTo ((← position) + offset + (encode text).length)
    return true
  | none =>
    moveTo (← size)
    return false

/-- Goes to the first of the given bytes and returns it, or goes to the end and returns zero. -/
def seek (stops : List UInt8) : Reading UInt8 := do
  let passed := (← ahead).takeWhile fun b => !stops.contains b
  moveTo ((← position) + passed.length)
  current

/-- Passes over the rest of the line, up to its line break. -/
def eatLine : Reading Unit := do
  discard (seek [byte '\n', byte '\r'])

/-! ### Results -/

/-- The span from an earlier offset to the cursor. -/
def spanFrom (start : Nat) : Reading Span := do
  return ⟨start, ← position⟩

/-- Refuses the source for something that started at an earlier offset. -/
def fail {α : Type} (cause : SourceError.Cause) (start : Nat) : Reading α := do
  throw (.refused ⟨cause, ← spanFrom start⟩)

/-- Adds an element to those found. -/
def record (element : Element) : Reading Unit :=
  modify fun state => { state with elements := state.elements.push element }

/-- Adds an expression to those found. -/
def store (shape : ExprShape) (span : Span) : Reading Scan.Node :=
  modifyGet fun state =>
    (⟨state.arena.size, span⟩, { state with arena := state.arena.push ⟨shape, span⟩ })

/-- Forgets all but the first of the elements and of the expressions found. -/
def truncate (elements exprs : Nat) : Reading Unit :=
  modify fun state =>
    { state with elements := state.elements.take elements, arena := state.arena.take exprs }

/-! ### Loops -/

/-- How a round of a loop ends. -/
inductive Round (σ α : Type) where
  | again (state : σ)
  | done (result : α)

/-- Goes round until a round is the last one.  With every other round fewer bytes are left. -/
def rounds {σ α : Type} (round : σ → Reading (Round σ α)) (start : σ) (source : List Char)
    (state : State) : Except Halt (α × State) :=
  match round start source state with
  | .error halt => .error halt
  | .ok (.done result, state') => .ok (result, state')
  | .ok (.again next, state') =>
    if Text.byteSize source - state'.pos < Text.byteSize source - state.pos then
      rounds round next source state'
    else .error .stalled
  termination_by Text.byteSize source - state.pos

/-- A round that may find something it does not deal with, which is then the last one. -/
def Trial.round {σ α : Type} (round : Trial (Round σ α)) : Reading (Round σ (Option α)) := do
  match ← round.run with
  | some (.again next) => return .again next
  | some (.done result) => return .done (some result)
  | none => return .done none

/-- Goes round until a round is the last one. -/
def Trial.rounds {σ α : Type} (round : σ → Trial (Round σ α)) (start : σ) : Trial α :=
  OptionT.mk (Cursor.rounds (fun state => (round state).round) start)

end UtilityClasses.Cursor
