import UtilityClasses.Command.Options
import UtilityClasses.Command.Report

/-!
# Explaining tokens

The command `class` shows how tokens are taken apart, classified and prefixed.
-/

namespace UtilityClasses.Command

/-- What there is to say about a token. -/
def explain (affix token : String) : String :=
  let segments := (Token.cut (Token.body token.toList)).map String.ofList
  let isUtility := Token.isUtility token
  unlines [
    token,
    "  modifiers: " ++ " | ".intercalate segments.dropLast,
    "  root:      " ++ segments.getLastD "",
    "  important: " ++ toString (Token.isImportant token),
    "  utility:   " ++ toString isUtility,
    "  result:    " ++ if isUtility then Token.withAffix affix token else token]

/-- Refuses to run. -/
def explainUsage : Report :=
  { errors := "Usage: twp class <token>... --prefix=<prefix>\n", exit := 1 }

/-- Runs the command with the words after its name.  Words that do not give a prefix are
tokens. -/
def runExplain (args : List String) : Report :=
  match (args.filterMap (after? "--prefix=")).getLast? with
  | none => explainUsage
  | some affix =>
    match checkAffix affix with
    | .error error => { errors := "error: " ++ error.message ++ "\n", exit := 1 }
    | .ok () =>
      let tokens := args.filter fun arg => (after? "--prefix=" arg).isNone
      if tokens.isEmpty then explainUsage
      else { output := String.join (tokens.map (explain affix)) }

end UtilityClasses.Command
