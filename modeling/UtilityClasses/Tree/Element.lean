import UtilityClasses.Tree.Expr

/-!
# Elements

The opening tags of a source with their attributes.  How elements are nested is not kept.
-/

namespace UtilityClasses

/-- A literal attribute value: the text between the delimiters, and the span with them. -/
structure Literal where
  quote : Quote
  value : String
  span : Span
  deriving DecidableEq, Repr

/-- The right-hand side of an attribute. -/
inductive AttrValue where
  | literal (text : Literal)
  /-- An expression in braces; the span covers the braces. -/
  | container (span : Span) (expr : ExprId)
  deriving DecidableEq, Repr

/-- Where a value stands, its delimiters included. -/
def AttrValue.span : AttrValue → Span
  | literal text => text.span
  | container span _ => span

/-- An attribute.  It has no value if none is written, or if the value is an element. -/
structure Attribute where
  name : String
  nameSpan : Span
  value : Option AttrValue
  span : Span
  deriving DecidableEq, Repr

/-- An opening tag, from its `<` to its `>`. -/
structure Element where
  name : String
  span : Span
  attributes : List Attribute
  deriving DecidableEq, Repr

/-- The markup of one source: its elements by position, and their expressions. -/
structure Markup where
  elements : List Element
  arena : Arena
  deriving DecidableEq, Repr

/-- The expression trees of all containers, in order.  Every root has depth zero. -/
def Markup.trees (markup : Markup) : Option (List (Nat × Expr)) := do
  let values := markup.elements.flatMap fun element => element.attributes.map (·.value)
  let trees ← values.mapM fun value =>
    match value with
    | some (.container _ expr) => markup.arena.tree expr
    | _ => some []
  some trees.flatten

end UtilityClasses
