/-!
# Lines

`lines` cuts a text into lines in the way that differences are shown.  `locate` gives a byte
offset as a line and a column, in the way that errors are reported.
-/

namespace UtilityClasses.Text

/-- A line without the carriage return at its end. -/
def dropReturn (line : List Char) : List Char :=
  if line.getLast? = some '\r' then line.dropLast else line

/-- The lines of a text.  A line ends with a line feed, and a carriage return in front of it
belongs to the ending.  What follows the last line feed is a line if it is not empty. -/
def lines (text : List Char) : List (List Char) :=
  let pieces := text.splitOnP (· == '\n')
  pieces.dropLast.map dropReturn ++ (pieces.getLast?.toList.filter fun last => !last.isEmpty)

/-- A line and a column, both counted from one. -/
structure Location where
  line : Nat
  column : Nat
  deriving DecidableEq, Repr

/-- Whether a character ends a line, if it is not the first of a pair that does. -/
def endsLine (c : Char) : Bool :=
  ['\n', '\r', '\x0b', '\x0c', '\u0085', '\u2028', '\u2029'].contains c

/-- The location of a byte offset in a text that starts at a given location.  Columns count
characters, and the end of the text lies on its last line. -/
def locateFrom (location : Location) (offset : Nat) : List Char → Location
  | [] => location
  | c :: rest =>
    if offset < c.utf8Size then location
    else
      let next : Location := ⟨location.line, location.column + 1⟩
      let lineEnds := endsLine c && !(c = '\r' && rest.head? = some '\n') && !rest.isEmpty
      locateFrom (if lineEnds then ⟨location.line + 1, 1⟩ else next) (offset - c.utf8Size) rest

/-- The location of a byte offset. -/
def locate (text : List Char) (offset : Nat) : Location :=
  locateFrom ⟨1, 1⟩ offset text

end UtilityClasses.Text
