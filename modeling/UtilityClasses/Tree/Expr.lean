import UtilityClasses.Span

/-!
# Expressions

The expressions inside a `{...}` attribute value, with just enough structure to find the
literals that hold class lists.  Nodes refer to their children by index into an arena, so a
node that has been stored never changes.
-/

namespace UtilityClasses

/-- The delimiter of a literal. -/
inductive Quote where
  | double
  | single
  /-- An attribute value without quotes. -/
  | bare
  deriving DecidableEq, Repr

/-- The delimiter as a character, if there is one. -/
def Quote.char? : Quote → Option Char
  | .double => some '"'
  | .single => some '\''
  | .bare => none

/-- The delimiters are the two kinds of quotes. -/
theorem Quote.eq_of_char? {quote : Quote} {delimiter : Char}
    (h : quote.char? = some delimiter) :
  delimiter = '"' ∨ delimiter = '\''
  := by
  cases quote with
  | double => apply Or.inl (Option.some.inj h).symm
  | single => apply Or.inr (Option.some.inj h).symm
  | bare => simp [Quote.char?] at h

/-- The operators that may leave their right operand alone. -/
inductive LogicalOp where
  | and
  | or
  | coalesce
  deriving DecidableEq, Repr

/-- The operator as it is written. -/
def LogicalOp.render : LogicalOp → String
  | .and => "&&"
  | .or => "||"
  | .coalesce => "??"

/-- The index of an expression in its arena. -/
abbrev ExprId := Nat

/-- The shape of an expression. -/
inductive ExprShape where
  /-- A string literal and the text it denotes. -/
  | str (quote : Quote) (value : String)
  /-- A template literal: the texts around its holes, one more than there are holes. -/
  | template (texts : List String) (holes : List ExprId)
  | ident (name : String)
  | member (object : ExprId) (property : String)
  | call (callee : ExprId) (args : List ExprId)
  | logical (op : LogicalOp) (left right : ExprId)
  | conditional (test consequent alternate : ExprId)
  | array (items : List ExprId)
  | spread (inner : ExprId)
  | paren (inner : ExprId)
  /-- Code that is kept as it stands and never looked into. -/
  | verbatim
  deriving DecidableEq, Repr

namespace ExprShape

/-- The children of a node, from left to right. -/
def children : ExprShape → List ExprId
  | str _ _ | ident _ | verbatim => []
  | template _ holes => holes
  | member object _ => [object]
  | call callee args => callee :: args
  | logical _ left right => [left, right]
  | conditional test consequent alternate => [test, consequent, alternate]
  | array items => items
  | spread inner | paren inner => [inner]

/-- The text of a template without holes. -/
def staticText? : ExprShape → Option String
  | template texts [] => some (String.join texts)
  | _ => none

/-- The name of the shape in an outline. -/
def label : ExprShape → String
  | str _ _ => "Str"
  | template _ _ => "Template"
  | ident _ => "Ident"
  | member _ _ => "Member"
  | call _ _ => "Call"
  | logical _ _ _ => "Logical"
  | conditional _ _ _ => "Conditional"
  | array _ => "Array"
  | spread _ => "Spread"
  | paren _ => "Paren"
  | verbatim => "Opaque"

end ExprShape

/-- An expression and where it stands. -/
structure Expr where
  shape : ExprShape
  span : Span
  deriving DecidableEq, Repr

/-- The expressions of one source, in the order in which they were stored. -/
abbrev Arena := Array Expr

/-- The expression `id` and everything below it, each with its depth: a parent comes before
its children, and children come from left to right.  There is no answer if an index leads out
of the arena, or if the tree is deeper than `bound`. -/
def Arena.walk (arena : Arena) : Nat → Nat → ExprId → Option (List (Nat × Expr))
  | 0, _, _ => none
  | bound + 1, depth, id => do
    let expr ← arena[id]?
    let below ← expr.shape.children.mapM (walk arena bound (depth + 1))
    some ((depth, expr) :: below.flatten)

/-- The expression `id` and everything below it, each with its depth.  No tree in an arena is
deeper than the arena is large. -/
def Arena.tree (arena : Arena) (id : ExprId) : Option (List (Nat × Expr)) :=
  arena.walk (arena.size + 1) 0 id

end UtilityClasses
