import UtilityClasses.Text.Decoding

/-!
# Paths

A path is a sequence of components with slashes between them.  Empty components and the
component `.` stand for the directory that has been reached, and `..` for the one above it.
Components and names of entries are bytes, and need not be texts.
-/

namespace UtilityClasses

/-- The name of an entry of a directory. -/
abbrev FileName := List UInt8

/-- A path. -/
structure Path where
  bytes : List UInt8
  deriving DecidableEq

namespace Path

/-- The path that a text gives. -/
def ofText (text : String) : Path :=
  ⟨Text.bytes text⟩

instance : Coe String Path := ⟨ofText⟩

/-- The path as it is shown. -/
def display (path : Path) : String :=
  Text.lenient path.bytes

/-- The slash. -/
def separator : UInt8 := 47

/-- The dot, which stands in front of an extension. -/
def dot : UInt8 := 46

/-- The components of a path. -/
def components (path : Path) : List FileName :=
  path.bytes.splitOnP (· == separator)

/-- Whether a component stands for the directory that has been reached. -/
def isHere (component : FileName) : Bool :=
  component == [] || component == [dot]

/-- Whether a component stands for the directory above the one that has been reached. -/
def isAbove (component : FileName) : Bool :=
  component == [dot, dot]

/-- Whether a path starts at the root. -/
def isAbsolute (path : Path) : Bool :=
  path.bytes.head? = some separator

/-- The longest path that can be followed. -/
def maxLength : Nat := 4095

/-- The longest name that can be looked up. -/
def maxNameLength : Nat := 255

/-- Whether a path is short enough to be followed. -/
def fits (path : Path) : Bool :=
  path.bytes.length ≤ maxLength

/-- The part of a file name after its last dot.  A dot that starts the name is no division. -/
def extensionOfName (name : FileName) : Option (List UInt8) :=
  let ending := name.reverse.takeWhile (· != dot)
  if ending.length + 1 < name.length then some ending.reverse else none

/-- The extension of the file that a path names.  A path that ends in `..`, or in which every
component stands for the directory that has been reached, names none. -/
def extension? (path : Path) : Option (List UInt8) := do
  let name ← (path.components.filter (!isHere ·)).getLast?
  if isAbove name then none else extensionOfName name

/-- The path of an entry of the directory at `path`. -/
def entry (path : Path) (name : FileName) : Path :=
  match path.bytes.getLast? with
  | none => ⟨name⟩
  | some last =>
    if last = separator then ⟨path.bytes ++ name⟩ else ⟨path.bytes ++ separator :: name⟩

end Path

end UtilityClasses
