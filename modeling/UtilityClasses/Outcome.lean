import UtilityClasses.Scan.Source
import UtilityClasses.Selection

/-!
# Outcomes

What becomes of a source: its class lists are found, prefixed and put back.
-/

namespace UtilityClasses

/-- What becomes of a source. -/
inductive Outcome where
  /-- No class list changes. -/
  | unchanged
  | changed (result : Spliced)
  /-- The source could not be read. -/
  | refused (error : SourceError)
  /-- The classifier gave up. -/
  | aborted
  deriving DecidableEq

namespace Outcome

/-- The text of the source afterwards. -/
def code (outcome : Outcome) (source : String) : String :=
  match outcome with
  | changed result => result.code
  | unchanged | refused _ | aborted => source

/-- What becomes of a source whose markup has been read. -/
def ofMarkup (settings : Settings) (source : String) (markup : Markup) : Outcome :=
  match Selection.ofMarkup settings markup with
  | none => aborted
  | some replacements =>
    let result := Replacement.splice source replacements
    if result.edits.isEmpty then unchanged else changed result

/-- What becomes of a source.  If the settings cannot change anything, it is not even read. -/
def ofSource (settings : Settings) (dialect : Dialect) (source : String) : Outcome :=
  if settings.isNoop then unchanged
  else
    match Markup.parse dialect source with
    | .ok markup => ofMarkup settings source markup
    | .error (.error error) => refused error
    | .error .exhausted => aborted

end Outcome

end UtilityClasses
