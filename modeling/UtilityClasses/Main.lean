import UtilityClasses.Command.Run

/-!
# The executable

Reads the working directory, and what else the arguments name, into a file tree, runs the command,
writes back the files that have changed, and prints the report.  What has a name that is no text,
or may not be read, is not seen.
-/

namespace UtilityClasses

/-- What is at an entry of a directory with everything below it, at most `depth` directories deep.
Links are not followed, and nothing is read from what is neither a file nor a directory. -/
def load (depth : Nat) (entry : IO.FS.DirEntry) : IO (Option FileTree) := do
  match depth with
  | 0 => return none
  | depth + 1 =>
    try
      match (← entry.path.symlinkMetadata).type with
      | .file => return some (.file (← IO.FS.readBinFile entry.path))
      | .dir =>
        let entries ← (← entry.path.readDir).toList.mapM fun inner => do
          return (← load depth inner).map (Text.bytes inner.fileName, ·)
        return some (.directory entries.reduceOption)
      | .symlink => return none
      | .other => return some (.special (.error "No such device or address (os error 6)"))
    catch _ => return none

/-- Where a path leads from the location `here`, as its components tell it. -/
def destination (here : List FileName) (path : Path) : List FileName :=
  path.components.foldl (fun location component =>
      if Path.isHere component then location
      else if Path.isAbove component then location.dropLast
      else location ++ [component])
    (if path.isAbsolute then [] else here)

/-- Whether a run with these words looks at files. -/
def readsFiles : List String → Bool
  | "prefix" :: words => !Command.asksHelp words && !Command.readsInput ("prefix" :: words)
  | "parse" :: _ :: _ => true
  | _ => false

end UtilityClasses

open UtilityClasses in
/-- Runs the command line. -/
def main (args : List String) : IO UInt32 := do
  let base ← IO.currentDir
  let here := destination [] base.toString
  let mut before := FileTree.empty
  if readsFiles args then
    let outside := (args.map fun arg => destination here (.ofText arg)).filter (!here.isPrefixOf ·)
    for location in here :: outside do
      let name := "/" ++ FileTree.displayLocation location
      -- There are fewer directories on a path than it has bytes.
      match ← load Path.maxLength ⟨base, name⟩ with
      | some tree => before := before.insert location tree
      | none => pure ()
  let input ← if Command.readsInput args then (← IO.getStdin).readBinToEnd else pure .empty
  let (after, report) := Command.runOn (Command.briefHost here) args input before
  for (path, content) in before.changes after do
    IO.FS.writeBinFile ("/" ++ path) content
  (← IO.getStdout).putStr report.output
  (← IO.getStderr).putStr report.errors
  return report.exit.toUInt32
