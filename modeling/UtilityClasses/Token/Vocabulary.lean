/-!
# The vocabulary of utilities

The names of the known utilities, by family.  A root belongs to the vocabulary when it is
one of them, or when one of them is followed in it by a hyphen: `bg-red-500` belongs by
`bg`, and `pointer-events-none` by `pointer-events`.
-/

namespace UtilityClasses.Token.Vocabulary

/-- Layout of boxes. -/
def layout : List String := [
  "container", "columns", "break", "box", "block", "inline", "flex", "grid", "table",
  "flow-root", "contents", "list-item", "hidden", "float", "clear", "isolate", "isolation",
  "object", "overflow", "overscroll", "static", "fixed", "absolute", "relative", "sticky",
  "inset", "top", "right", "bottom", "left", "start", "end", "visible", "invisible", "collapse",
  "z", "aspect"]

/-- Flexible boxes and grids. -/
def flexAndGrid : List String := [
  "basis", "grow", "shrink", "order", "col", "row", "grid-cols", "grid-rows", "grid-flow",
  "auto-cols", "auto-rows", "gap", "justify", "content", "items", "self", "place"]

/-- Padding, margins and the space between children. -/
def spacing : List String := [
  "p", "px", "py", "ps", "pe", "pt", "pr", "pb", "pl", "m", "mx", "my", "ms", "me", "mt", "mr",
  "mb", "ml", "space"]

/-- Widths and heights. -/
def sizing : List String := [
  "w", "min-w", "max-w", "h", "min-h", "max-h", "size"]

/-- Type. -/
def typography : List String := [
  "font", "text", "antialiased", "subpixel-antialiased", "italic", "not-italic", "tracking",
  "leading", "line-clamp", "list", "underline", "overline", "line-through", "no-underline",
  "decoration", "uppercase", "lowercase", "capitalize", "normal-case", "truncate", "indent",
  "align", "whitespace", "hyphens", "normal-nums", "ordinal", "slashed-zero", "lining-nums",
  "oldstyle-nums", "proportional-nums", "tabular-nums", "diagonal-fractions",
  "stacked-fractions", "underline-offset", "text-wrap", "sr-only", "not-sr-only"]

/-- Backgrounds and gradients. -/
def backgrounds : List String := [
  "bg", "from", "via", "to"]

/-- Borders and outlines. -/
def borders : List String := [
  "rounded", "border", "divide", "outline", "ring"]

/-- Effects and filters. -/
def effects : List String := [
  "shadow", "opacity", "mix-blend", "bg-blend", "blur", "brightness", "contrast", "drop-shadow",
  "grayscale", "hue-rotate", "invert", "saturate", "sepia", "backdrop"]

/-- Tables. -/
def tables : List String := [
  "border-collapse", "border-separate", "border-spacing", "caption"]

/-- Transitions and animation. -/
def transitions : List String := [
  "transition", "duration", "ease", "delay", "animate"]

/-- Transforms. -/
def transforms : List String := [
  "transform", "scale", "rotate", "translate", "skew", "origin"]

/-- Response to the pointer and to scrolling. -/
def interactivity : List String := [
  "accent", "appearance", "cursor", "caret", "pointer-events", "resize", "scroll", "snap",
  "touch", "select", "will-change"]

/-- Vector drawings. -/
def drawing : List String := [
  "fill", "stroke"]

/-- Marks that other utilities refer to, and that take the prefix as well. -/
def markers : List String := [
  "group", "peer"]

/-- Every known utility. -/
def roots : List String :=
  layout ++ flexAndGrid ++ spacing ++ sizing ++ typography ++ backgrounds ++
    borders ++ effects ++ tables ++ transitions ++ transforms ++ interactivity ++ drawing ++ markers

/-- The parts of a text that a hyphen follows, the shortest first. -/
def heads : List Char → List (List Char)
  | [] => []
  | c :: rest =>
    let longer := (heads rest).map (c :: ·)
    if c = '-' then [] :: longer else longer

/-- Whether a root is a known utility, or continues one after a hyphen. -/
def holds (root : List Char) : Bool :=
  (root :: heads root).any fun name => roots.contains (String.ofList name)

end UtilityClasses.Token.Vocabulary
