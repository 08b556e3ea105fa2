import UtilityClasses.Command.Explain
import UtilityClasses.Command.Outline

/-!
# The command line

The program as a function of its arguments, its input and the files it can see.
-/

namespace UtilityClasses.Command

/-- The version of the program. -/
def version : String := "0.1.0"

/-- How to use the program. -/
def usage : String :=
  unlines [
    "twprefix: prefix utility classes in markup and JSX sources",
    "",
    "Usage: twp <command> [options]",
    "",
    "Commands:",
    "  prefix <paths...> --prefix=<p>  Rewrite files in place (see `twp prefix --help`)",
    "  class <token>... --prefix=<p>   Explain how tokens are split, classified, prefixed",
    "  parse <file>                    Dump the tree the rewriter sees",
    "  help                            Show this help message",
    "  version                         Show the version",
    "",
    "Set RUST_LOG (e.g. RUST_LOG=twp_rewrite=trace) for tracing output."]

/-- Runs the program with the words after its name.  Returns the files as they are then. -/
def runOn (host : Host) (args : List String) (input : ByteArray) (tree : FileTree) :
    FileTree × Report :=
  match args with
  | [] => (tree, { output := usage, exit := 1 })
  | "prefix" :: words => runFiles host words input tree
  | "class" :: words => (tree, runExplain words)
  | "parse" :: path :: _ => (tree, runOutline host tree path)
  | ["parse"] => (tree, { errors := "Usage: twp parse <file>\n", exit := 1 })
  | "help" :: _ | "--help" :: _ | "-h" :: _ => (tree, { output := usage })
  | "version" :: _ | "--version" :: _ | "-V" :: _ =>
    (tree, { output := "twp " ++ version ++ "\n" })
  | word :: _ =>
    (tree, { output := usage, errors := "Unknown command: " ++ word ++ "\n\n", exit := 1 })

/-- A host that makes reports of two lines. -/
def briefHost (here : List FileName) : Host where
  here
  draw report := some (Text.bytes report.brief)
  complaint _ _ _ := none

/-- Where the working directory is if there is nothing beside it. -/
def workplace : List FileName :=
  [Text.bytes "work"]

/-- Runs the program in a working directory that has nothing beside it.  Returns the files in it
as they are then. -/
def run (args : List String) (input : ByteArray) (files : FileTree) : FileTree × Report :=
  let before := FileTree.empty.insert workplace files
  let (root, report) := runOn (briefHost workplace) args input before
  ((root.get? workplace).getD files, report)

/-- Whether a run with these words reads standard input. -/
def readsInput : List String → Bool
  | "prefix" :: words =>
    !asksHelp words &&
      match Options.parse words with
      | .ok options => options.input.isSome
      | .error _ => false
  | _ => false

end UtilityClasses.Command
