import UtilityClasses.Literal.Spelling
import UtilityClasses.Replacement
import UtilityClasses.Settings
import UtilityClasses.Tree.Element

/-!
# Selection

Which literals of a source hold class lists, and what each is replaced by.  Only the values of
target attributes are looked into: the value itself, if it is a literal, and the arguments of
helper calls anywhere in it.
-/

namespace UtilityClasses.Selection

/-! ### Literals in code -/

/-- A class list in code, and how it is written there. -/
inductive ClassText where
  | string (quote : Quote) (text : String)
  | template (text : String)

/-- The class list itself. -/
def ClassText.text : ClassText → String
  | string _ text | template text => text

/-- A new class list as a string literal; a template turns into a string in double quotes. -/
def ClassText.spell : ClassText → String → String
  | string quote _, new => Literal.inCode quote new
  | template _, new => Literal.inCode .double new

/-- The class list that an expression is. -/
def classText? (shape : ExprShape) : Option ClassText :=
  match shape with
  | .str quote text => some (.string quote text)
  | _ => shape.staticText?.map .template

/-- The expression inside any number of parentheses, at most `bound`. -/
def peelAtMost (arena : Arena) : Nat → Expr → Option Expr
  | 0, _ => none
  | bound + 1, expr =>
    match expr.shape with
    | .paren inner => do peelAtMost arena bound (← arena[inner]?)
    | _ => some expr

/-- The expression inside any number of parentheses. -/
def peel (arena : Arena) (expr : Expr) : Option Expr :=
  peelAtMost arena (arena.size + 1) expr

/-- The replacement of a literal in code, if it is a class list that changes. -/
def ofLiteral (settings : Settings) (expr : Expr) (target : ClassText → Target) :
    Option (List Replacement) :=
  match classText? expr.shape with
  | none => some []
  | some text => do
    match ← settings.revised text.text with
    | none => some []
    | some new => some [⟨target text, expr.span, text.spell new⟩]

/-! ### Helper calls -/

/-- What a literal is that stands as an argument. -/
def argumentTarget : ClassText → Target
  | .string _ _ => .argumentLiteral
  | .template _ => .argumentTemplate

/-- The replacement for an argument of a helper call: a literal, or a literal after `&&`. -/
def ofArgument (settings : Settings) (arena : Arena) (id : ExprId) :
    Option (List Replacement) := do
  let expr ← peel arena (← arena[id]?)
  match expr.shape with
  | .logical .and _ right =>
    ofLiteral settings (← peel arena (← arena[right]?)) fun _ => .argumentRight
  | _ => ofLiteral settings expr argumentTarget

/-- Whether an expression is the plain name of a helper. -/
def isHelper (expr : Expr) : Bool :=
  match expr.shape with
  | .ident name => helperNames.contains name
  | _ => false

/-- The replacements for the arguments of an expression, if it is a helper call. -/
def ofCall (settings : Settings) (arena : Arena) (expr : Expr) : Option (List Replacement) :=
  match expr.shape with
  | .call callee args => do
    if isHelper (← arena[callee]?) then
      some (← args.mapM (ofArgument settings arena)).flatten
    else some []
  | _ => some []

/-- The replacements for the arguments of all helper calls in an expression. -/
def ofCalls (settings : Settings) (arena : Arena) (id : ExprId) :
    Option (List Replacement) := do
  let nodes ← arena.tree id
  let found ← nodes.mapM fun (_, expr) => ofCall settings arena expr
  some found.flatten

/-! ### Attributes -/

/-- The replacements in a container.  A template that is the whole of it is replaced together
with the braces. -/
def ofContainer (settings : Settings) (arena : Arena) (span : Span) (id : ExprId) :
    Option (List Replacement) := do
  let inner ← peel arena (← arena[id]?)
  match classText? inner.shape with
  | none => ofCalls settings arena id
  | some text =>
    match ← settings.revised text.text with
    | none => ofCalls settings arena id
    | some new =>
      match text with
      | .string _ _ => some [⟨.attributeLiteral, inner.span, text.spell new⟩]
      | .template _ => some [⟨.staticTemplate, span, Literal.asAttribute new⟩]

/-- The replacements in an attribute value. -/
def ofValue (settings : Settings) (arena : Arena) : AttrValue → Option (List Replacement)
  | .literal text => do
    match ← settings.revised text.value with
    | none => some []
    | some new => some [⟨.attributeLiteral, text.span, Literal.inAttribute text.quote new⟩]
  | .container span id => ofContainer settings arena span id

/-- The replacements in an attribute. -/
def ofAttribute (settings : Settings) (arena : Arena) (attr : Attribute) :
    Option (List Replacement) :=
  if settings.isTarget attr.name then
    match attr.value with
    | none => some []
    | some value => ofValue settings arena value
  else some []

/-- All replacements in a source: by element and attribute, and in an expression a call before
the calls inside it.  There is no answer if the classifier gives up, or if an index leads out
of the arena. -/
def ofMarkup (settings : Settings) (markup : Markup) : Option (List Replacement) := do
  let attributes := markup.elements.flatMap Element.attributes
  let found ← attributes.mapM (ofAttribute settings markup.arena)
  some found.flatten

end UtilityClasses.Selection
