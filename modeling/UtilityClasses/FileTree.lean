import UtilityClasses.Dialect

/-!
# File trees

A directory with everything below it.  There are no links, and everything that is there may be
looked at and written to.  Relative paths start at the location of the working directory.
-/

namespace UtilityClasses

/-- A file, a directory, or something else that has a name, such as a pipe.  The names in a
directory are distinct. -/
inductive FileTree where
  | file (content : ByteArray)
  | directory (entries : List (FileName × FileTree))
  /-- Neither a file nor a directory.  What is read from it, or why nothing can be, does not
  depend on what has been written to it. -/
  | special (reading : Except String ByteArray)

/-- Where a path leads. -/
inductive Lookup where
  | missing
  /-- The path goes on behind something that is no directory. -/
  | notDirectory
  /-- The path, or a name in it, is longer than the system accepts. -/
  | tooLong
  /-- There is something at the location. -/
  | found (location : List FileName) (tree : FileTree)

namespace FileTree

/-- A directory without entries. -/
def empty : FileTree := directory []

/-- What is at a location, which is given by the names on the way. -/
def get? : FileTree → List FileName → Option FileTree
  | tree, [] => some tree
  | directory entries, name :: later => (entries.lookup name).bind fun tree => tree.get? later
  | file _, _ :: _ | special _, _ :: _ => none

/-- Puts something at a location.  Directories on the way are made where there is nothing, and
nothing is put behind what is no directory. -/
def insert : FileTree → List FileName → FileTree → FileTree
  | _, [], leaf => leaf
  | directory entries, name :: later, leaf =>
    if (entries.lookup name).isSome then
      directory (entries.map fun (other, tree) =>
        (other, if other = name then tree.insert later leaf else tree))
    else directory (entries ++ [(name, empty.insert later leaf)])
  | file content, _ :: _, _ => file content
  | special reading, _ :: _, _ => special reading

/-- Follows the components of a path from a location.  The root is above itself. -/
def follow (root : FileTree) (location : List FileName) : List FileName → Lookup
  | [] =>
    match root.get? location with
    | some tree => .found location tree
    | none => .missing
  | component :: later =>
    match root.get? location with
    | none => .missing
    | some (directory _) =>
      if Path.isHere component then root.follow location later
      else if Path.isAbove component then root.follow location.dropLast later
      else if Path.maxNameLength < component.length then .tooLong
      else root.follow (location ++ [component]) later
    | some _ => .notDirectory

/-- Follows a path, from the working directory at `here` if it does not start at the root. -/
def find (root : FileTree) (here : List FileName) (path : Path) : Lookup :=
  if path.bytes = [] then .missing
  else if !path.fits then .tooLong
  else root.follow (if path.isAbsolute then [] else here) path.components

/-- Whether a path leads to a directory. -/
def isDirectory (root : FileTree) (here : List FileName) (path : Path) : Bool :=
  match root.find here path with
  | .found _ (directory _) => true
  | _ => false

/-! ### All files -/

/-- Whether an entry is passed over when sources are looked for: it is hidden, or it holds what
other programs have put there.  A name that is no text is not looked at. -/
def isSkipped (name : FileName) : Bool :=
  match Text.ofBytes? name with
  | some name => name.toList.head? = some '.' || name == "target" || name == "node_modules"
  | none => false

/-- A path if it names a source. -/
def named (path : Path) : List Path :=
  if (Dialect.ofPath? path).isSome then [path] else []

mutual

/-- The paths of the sources in a tree at a path: entries come in the order of their names, and
what is below a directory comes in its place.  A directory whose path cannot be followed is not
seen to be one. -/
def sources (path : Path) : FileTree → List Path
  | directory entries =>
    if path.fits then
      ((entrySources path entries).mergeSort fun a b => a.1 ≤ b.1).flatMap Prod.snd
    else named path
  | file _ | special _ => named path

/-- The names of entries, each with the paths of the sources it holds. -/
def entrySources (path : Path) : List (FileName × FileTree) → List (FileName × List Path)
  | [] => []
  | entry :: later => entrySource path entry :: entrySources path later

/-- The name of an entry with the paths of the sources it holds. -/
def entrySource (path : Path) : FileName × FileTree → FileName × List Path
  | (name, tree) => (name, if isSkipped name then [] else tree.sources (path.entry name))

end

mutual

/-- The files of a tree, each with its location below a given one. -/
def filesFrom (location : List FileName) : FileTree → List (List FileName × ByteArray)
  | file content => [(location, content)]
  | directory entries => entryFiles location entries
  | special _ => []

/-- The files of entries, each with its location below a given one. -/
def entryFiles (location : List FileName) :
    List (FileName × FileTree) → List (List FileName × ByteArray)
  | [] => []
  | entry :: later => entryFile location entry ++ entryFiles location later

/-- The files of an entry, each with its location below a given one. -/
def entryFile (location : List FileName) : FileName × FileTree → List (List FileName × ByteArray)
  | (name, tree) => tree.filesFrom (location ++ [name])

end

/-- The files of a tree, each with its location. -/
def files (tree : FileTree) : List (List FileName × ByteArray) :=
  tree.filesFrom []

/-- A location as it is shown. -/
def displayLocation (location : List FileName) : String :=
  Path.display ⟨[Path.separator].intercalate location⟩

/-- The files of a tree whose content is not what it was, each with its location as it is
shown. -/
def changes (before after : FileTree) : List (String × ByteArray) :=
  after.files.filterMap fun (location, content) =>
    match before.get? location with
    | some (file old) =>
      if old == content then none else some (displayLocation location, content)
    | _ => some (displayLocation location, content)

end FileTree

end UtilityClasses
