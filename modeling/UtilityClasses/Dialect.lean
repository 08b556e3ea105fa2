import UtilityClasses.Path

/-!
# Dialects

The kinds of source text that can be read, and how a file name tells them apart.
-/

namespace UtilityClasses

/-- A kind of source text. -/
inductive Dialect where
  | html
  | vue
  | svelte
  | astro
  /-- Code with elements in it. -/
  | jsx
  /-- Code without elements. -/
  | script
  deriving DecidableEq, Repr

namespace Dialect

/-- The name of a dialect. -/
def name : Dialect → String
  | html => "html"
  | vue => "vue"
  | svelte => "svelte"
  | astro => "astro"
  | jsx => "jsx"
  | script => "script"

/-- The known file extensions. -/
def extensions : List String :=
  ["html", "htm", "vue", "svelte", "astro", "js", "jsx", "mjs", "cjs", "tsx", "ts", "mts", "cts"]

/-- The dialect of the files with an extension; capital and small letters differ. -/
def ofExtension? : String → Option Dialect
  | "html" | "htm" => some html
  | "vue" => some vue
  | "svelte" => some svelte
  | "astro" => some astro
  | "js" | "jsx" | "mjs" | "cjs" | "tsx" => some jsx
  | "ts" | "mts" | "cts" => some script
  | _ => none

/-- The dialect of the file at a path. -/
def ofPath? (path : Path) : Option Dialect := do
  ofExtension? (← Text.ofBytes? (← path.extension?))

/-- Whether a source is a document of text and tags, and not code. -/
def isMarkup : Dialect → Bool
  | html | vue | svelte | astro => true
  | jsx | script => false

/-- Whether an element can stand where code expects an operand. -/
def allowsElements : Dialect → Bool
  | jsx | astro => true
  | html | vue | svelte | script => false

/-- Whether braces in tags and text hold code. -/
def hasContainers : Dialect → Bool
  | jsx | svelte | astro => true
  | html | vue | script => false

end Dialect

end UtilityClasses
