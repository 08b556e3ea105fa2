import UtilityClasses.Settings
import UtilityClasses.Dialect
import UtilityClasses.SourceError
import UtilityClasses.Text.Line
import UtilityClasses.Text.Offset

/-!
# Reports

What a command tells its user.
-/

namespace UtilityClasses.Command

/-- The texts that a command writes, and its exit code. -/
structure Report where
  output : String := ""
  errors : String := ""
  exit : Nat := 0

/-- A text and a line feed for each line. -/
def unlines (lines : List String) : String :=
  String.join (lines.map (· ++ "\n"))

/-- The part of a source that a report points at: as much of a span as lies in the source, or the
character after it if that is nothing, so that there is something to point at. -/
def labelSpan (source : String) (span : Span) : Span :=
  let start := min span.start source.utf8ByteSize
  let stop := min span.stop source.utf8ByteSize
  if start < stop then ⟨start, stop⟩
  else
    let next := (Text.cutAt start source.toList).bind fun (_, ahead) => ahead.head?
    ⟨start, start + next.elim 0 Char.utf8Size⟩

/-! ### Errors in sources -/

/-- What is to be said about an error in a source: the error in words, the part of the source at
`path` that it points at with a few words for it, and a note. -/
structure ErrorReport where
  path : String
  source : String
  message : String
  span : Span
  label : String
  note : String

/-- What there is to say about an error in the source at a path. -/
def errorReport (path source : String) (error : SourceError) : ErrorReport where
  path
  source
  message := error.message
  span := labelSpan source error.span
  label := error.label
  note := "the file was left unchanged"

/-- A report in two lines: the error in words, and where it is. -/
def ErrorReport.brief (report : ErrorReport) : String :=
  let location := Text.locate report.source.toList report.span.start
  unlines ["Error: " ++ report.message,
    "at " ++ report.path ++ ":" ++ toString location.line ++ ":" ++ toString location.column]

/-! ### The host -/

/-- What the program finds where it runs. -/
structure Host where
  /-- The location of the working directory. -/
  here : List FileName
  /-- Draws a report, if it can be drawn. -/
  draw : ErrorReport → Option (List UInt8)
  /-- What a source says that makes the program give up, if that is a text. -/
  complaint : Settings → Dialect → String → Option String

/-- The report of an error in the source at a path. -/
def Host.renderError (host : Host) (path source : String) (error : SourceError) : String :=
  match host.draw (errorReport path source error) with
  | some drawing => Text.lenient drawing
  | none => "error: " ++ path ++ ": " ++ error.message ++ "\n"

end UtilityClasses.Command
