import UtilityClasses.Command.Options
import UtilityClasses.Command.Report
import UtilityClasses.FileTree
import UtilityClasses.Patch
import UtilityClasses.Outcome

/-!
# Prefixing files

The command `prefix` changes files in place, those below directories included, or one source
from standard input.  Every file stands alone: one that cannot be dealt with is reported and
keeps its content.
-/

namespace UtilityClasses.Command

/-! ### Single sources -/

/-- What becomes of a file. -/
inductive FileResult where
  | unchanged
  | changed (source code : String)
  | failed (message : String)
  deriving DecidableEq

/-- Reads the file at the path that a text gives. -/
def readFile (host : Host) (tree : FileTree) (path : String) : Except String String :=
  let failed := fun reason => .error ("error reading '" ++ path ++ "': " ++ reason)
  let decoded := fun content =>
    match String.fromUTF8? content with
    | some source => .ok source
    | none => .error ("'" ++ path ++ "' contains invalid UTF-8 data")
  match tree.find host.here path with
  | .missing => .error ("cannot find file '" ++ path ++ "'")
  | .notDirectory => failed "Not a directory (os error 20)"
  | .tooLong => failed "File name too long (os error 36)"
  | .found _ (.directory _) => failed "Is a directory (os error 21)"
  | .found _ (.file content) => decoded content
  | .found _ (.special (.ok content)) => decoded content
  | .found _ (.special (.error reason)) => failed reason

/-- What becomes of the source at a path. -/
def sourceResult (host : Host) (settings : Settings) (dialect : Dialect) (path source : String) :
    FileResult :=
  match Outcome.ofSource settings dialect source with
  | .unchanged => .unchanged
  | .changed result => .changed source result.code
  | .refused error => .failed (host.renderError path source error)
  | .aborted =>
    let complaint := (host.complaint settings dialect source).getD "unknown panic"
    .failed ("error: transform of '" ++ path ++ "' panicked: " ++ complaint ++ "\n")

/-- What becomes of the file at a path.  The file is read where the path leads as it is shown. -/
def fileResult (host : Host) (settings : Settings) (tree : FileTree) (path : Path) : FileResult :=
  match Dialect.ofPath? path with
  | none => .failed ("unsupported file type: '" ++ path.display ++ "'\n")
  | some dialect =>
    match readFile host tree path.display with
    | .error message => .failed (message ++ "\n")
    | .ok source => sourceResult host settings dialect path.display source

/-- A tree with a text written to the file at a path.  A run writes only behind a path that it has
found something at, so nothing is made. -/
def writeFile (host : Host) (tree : FileTree) (path : Path) (code : String) : FileTree :=
  match tree.find host.here path with
  | .found location (.file _) => tree.insert location (.file code.toUTF8)
  | _ => tree

/-! ### Runs -/

/-- How many files a run has changed, or would have, how many it has left alone, and how many
it could not deal with. -/
structure Summary where
  changed : Nat := 0
  unchanged : Nat := 0
  failed : Nat := 0
  deriving DecidableEq

/-- The state of a run: the tree, what has been written, and the count of files. -/
structure Progress where
  tree : FileTree
  output : String := ""
  errors : String := ""
  summary : Summary := {}

/-- Deals with the file at a path. -/
def processFile (host : Host) (options : Options) (progress : Progress) (path : Path) : Progress :=
  let summary := progress.summary
  match fileResult host options.settings progress.tree path with
  | .unchanged => { progress with summary.unchanged := summary.unchanged + 1 }
  | .failed message =>
    { progress with
      errors := progress.errors ++ message
      summary.failed := summary.failed + 1 }
  | .changed source code =>
    let progress := { progress with summary.changed := summary.changed + 1 }
    if options.check || options.diff then
      let patch :=
        if options.diff then (Comparison.ofTexts source code).render path.display else ""
      let note := if options.check then "Would rewrite: " ++ path.display ++ "\n" else ""
      { progress with output := progress.output ++ patch ++ note }
    else
      { progress with
        tree := writeFile host progress.tree path code
        output := progress.output ++ "Rewritten: " ++ path.display ++ "\n" }

/-- Deals with what a path argument names: a file, or the sources below a directory. -/
def processPath (host : Host) (options : Options) (progress : Progress) (path : String) :
    Progress :=
  match progress.tree.find host.here path with
  | .found _ (.file _) => processFile host options progress path
  | .found _ (.directory entries) =>
    (FileTree.sources path (.directory entries)).foldl (processFile host options) progress
  | .found _ (.special _) | .missing | .notDirectory | .tooLong =>
    { progress with
      errors := progress.errors ++ "Path not found: " ++ path ++ "\n"
      summary.failed := progress.summary.failed + 1 }

/-- Deals with all path arguments, from left to right. -/
def processPaths (host : Host) (options : Options) (tree : FileTree) : Progress :=
  options.paths.foldl (processPath host options) { tree }

/-- The line with the count of files. -/
def Summary.render (options : Options) (summary : Summary) : String :=
  let verb := if options.check || options.diff then "would rewrite" else "rewritten"
  "\n" ++ toString summary.changed ++ " " ++ verb ++ ", " ++ toString summary.unchanged ++
    " unchanged, " ++ toString summary.failed ++ " failed\n"

/-- Deals with all files.  The count is shown if several files may be meant. -/
def processTree (host : Host) (options : Options) (tree : FileTree) : FileTree × Report :=
  let progress := processPaths host options tree
  let summary := progress.summary
  let isDirectory := fun path : String => progress.tree.isDirectory host.here path
  let several := 1 < options.paths.length || options.paths.any isDirectory
  let count := if several then summary.render options else ""
  let failed := 0 < summary.failed || (options.check && 0 < summary.changed)
  (progress.tree, ⟨progress.output ++ count, progress.errors, if failed then 1 else 0⟩)

/-- Prefixes one source from standard input to standard output. -/
def processInput (host : Host) (settings : Settings) (dialect : Dialect) (input : ByteArray) :
    Report :=
  match String.fromUTF8? input with
  | none =>
    { errors := "Error reading from stdin: stream did not contain valid UTF-8\n", exit := 1 }
  | some source =>
    match sourceResult host settings dialect "<stdin>" source with
    | .unchanged => { output := source }
    | .changed _ code => { output := code }
    | .failed message => { errors := message, exit := 1 }

/-! ### The command -/

/-- How to use the command. -/
def filesHelp : String :=
  unlines [
    "Prefix utility classes in source files",
    "",
    "Usage: twp prefix <paths...> --prefix=<prefix> [options]",
    "",
    "Arguments:",
    "  paths            Files or directories to rewrite (default: .)",
    "",
    "Options:",
    "  --prefix=<p>     Prefix to add, e.g. tw-",
    "  --attr=<name>    Attribute to rewrite (repeatable; default: class, className, tw)",
    "  --check          Exit 1 if any file would change, write nothing",
    "  --diff           Show a diff instead of writing",
    "  --stdin[=<ext>]  Read from stdin, write to stdout (default type: tsx)",
    "  --help           Show this help message",
    "",
    "Supported files: " ++ ", ".intercalate Dialect.extensions,
    "Skipped: hidden entries, node_modules/, target/"]

/-- Whether help is asked for. -/
def asksHelp (args : List String) : Bool :=
  args.any fun arg => arg == "--help" || arg == "-h"

/-- Runs the command with the words after its name. -/
def runFiles (host : Host) (args : List String) (input : ByteArray) (tree : FileTree) :
    FileTree × Report :=
  if asksHelp args then (tree, { output := filesHelp })
  else
    match Options.parse args with
    | .error error =>
      (tree, {
        errors := unlines ["error: " ++ error.message, "Run 'twp prefix --help' for usage"]
        exit := 1 })
    | .ok options =>
      match options.input with
      | some dialect => (tree, processInput host options.settings dialect input)
      | none => processTree host options tree

end UtilityClasses.Command
