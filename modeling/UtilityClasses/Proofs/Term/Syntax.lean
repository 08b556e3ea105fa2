import Mathlib.Tactic.Common
import UtilityClasses.Literal.Spelling
import UtilityClasses.Scan.Expression

/-!
# Terms

A term is an expression of the kind that is looked into, as a tree of its own, without ids and
without spans. `Term.print` writes it in one way, with single blanks around operators and after
commas, and `Term.Derives` is the grammar of the terms that mean themselves when they are
written like that. `Arena.term?` reads the tree of an expression back from the arena.
-/

namespace UtilityClasses

/-- An expression without ids and spans. -/
inductive Term where
  | str (quote : Quote) (value : String)
  /-- A template: the text up to its first hole, and each hole with the text after it. -/
  | template (text : String) (holes : List (Term × String))
  | ident (name : String)
  | member (object : Term) (property : String)
  | call (callee : Term) (args : List Term)
  | logical (op : LogicalOp) (left right : Term)
  | conditional (test consequent alternate : Term)
  | array (items : List Term)
  | spread (inner : Term)
  | paren (inner : Term)

namespace Term

/-! ### Printing -/

mutual

/-- A term as it is written. -/
def print : Term → List Char
  | str quote value => (Literal.inCode quote value).toList
  | template text holes => '\x60' :: (text.toList ++ (printHoles holes ++ ['\x60']))
  | ident name => name.toList
  | member object property => object.print ++ '.' :: property.toList
  | call callee args => callee.print ++ '(' :: (printItems args ++ [')'])
  | logical op left right => left.print ++ ' ' :: (op.render.toList ++ ' ' :: right.print)
  | conditional test consequent alternate =>
    test.print ++ ' ' :: '?' :: ' ' :: (consequent.print ++ ' ' :: ':' :: ' ' :: alternate.print)
  | array items => '[' :: (printItems items ++ [']'])
  | spread inner => '.' :: '.' :: '.' :: inner.print
  | paren inner => '(' :: (inner.print ++ [')'])

/-- Items as they are written, with commas between them. -/
def printItems : List Term → List Char
  | [] => []
  | item :: later => item.print ++ printLater later

/-- The items after the first one as they are written, each after its comma. -/
def printLater : List Term → List Char
  | [] => []
  | item :: later => ',' :: ' ' :: (item.print ++ printLater later)

/-- The holes of a template as they are written, each with the text after it. -/
def printHoles : List (Term × String) → List Char
  | [] => []
  | (hole, text) :: later =>
    '$' :: '\x7b' :: (hole.print ++ '\x7d' :: (text.toList ++ printHoles later))

end

/-! ### Grammar -/

/-- How tightly the parts of a term hold together. -/
inductive Level where
  | primary
  | postfixed
  | unary
  | conjunction
  | disjunction
  | conditional
  deriving DecidableEq

/-- The text can be written as a name. -/
structure IsName (name : String) : Prop where
  head : name.toList.head?.any Scan.isNameStart = true
  all : ∀ c ∈ name.toList, Scan.isNameChar c = true

/-- The text can stand in a template as it is. -/
def IsPlain (text : String) : Prop :=
  ∀ c ∈ text.toList, c ≠ '\x60' ∧ c ≠ '\\' ∧ c ≠ '$'

/-- The terms of each level. -/
inductive Derives : Level → Term → Prop
  | str {quote : Quote} (value : String) (hquote : quote ≠ .bare) :
      Derives .primary (str quote value)
  | template {text : String} {holes : List (Term × String)} (htext : IsPlain text)
      (hholes : ∀ entry ∈ holes, Derives .conditional entry.1)
      (htexts : ∀ entry ∈ holes, IsPlain entry.2) :
      Derives .primary (template text holes)
  | ident {name : String} (hname : IsName name) (hunary : name ∉ Scan.unaryWords)
      (hrefused : name ∉ Scan.refusedWords) :
      Derives .primary (ident name)
  | paren {inner : Term} (hinner : Derives .conditional inner) : Derives .primary (paren inner)
  | array {items : List Term} (hitems : ∀ item ∈ items, Derives .conditional item) :
      Derives .primary (array items)
  | primary {term : Term} (h : Derives .primary term) : Derives .postfixed term
  | member {object : Term} {property : String} (hobject : Derives .postfixed object)
      (hproperty : IsName property) :
      Derives .postfixed (member object property)
  | call {callee : Term} {args : List Term} (hcallee : Derives .postfixed callee)
      (hargs : ∀ arg ∈ args, Derives .conditional arg) :
      Derives .postfixed (call callee args)
  | postfixed {term : Term} (h : Derives .postfixed term) : Derives .unary term
  | spread {inner : Term} (hinner : Derives .unary inner) : Derives .unary (spread inner)
  | unary {term : Term} (h : Derives .unary term) : Derives .conjunction term
  | and {left right : Term} (hleft : Derives .conjunction left) (hright : Derives .unary right) :
      Derives .conjunction (logical .and left right)
  | conjunction {term : Term} (h : Derives .conjunction term) : Derives .disjunction term
  | or {op : LogicalOp} {left right : Term} (hop : op ≠ .and) (hleft : Derives .disjunction left)
      (hright : Derives .conjunction right) :
      Derives .disjunction (logical op left right)
  | disjunction {term : Term} (h : Derives .disjunction term) : Derives .conditional term
  | conditional {test consequent alternate : Term} (htest : Derives .disjunction test)
      (hconsequent : Derives .conditional consequent)
      (halternate : Derives .conditional alternate) :
      Derives .conditional (conditional test consequent alternate)

end Term

/-! ### Reading a tree back -/

/-- The tree of an expression, if it is at most as high as the bound. There is none if a part of
it is kept as it stands, or if an index leads out of the arena. -/
def Arena.termAtMost (arena : Arena) : Nat → ExprId → Option Term
  | 0, _ => none
  | bound + 1, id => do
    match (← arena[id]?).shape with
    | .str quote value => some (.str quote value)
    | .template [] _ => none
    | .template (text :: texts) holes =>
      some (.template text ((← holes.mapM (termAtMost arena bound)).zip texts))
    | .ident name => some (.ident name)
    | .member object property => some (.member (← termAtMost arena bound object) property)
    | .call callee args =>
      some (.call (← termAtMost arena bound callee) (← args.mapM (termAtMost arena bound)))
    | .logical op left right =>
      some (.logical op (← termAtMost arena bound left) (← termAtMost arena bound right))
    | .conditional test consequent alternate =>
      some (.conditional (← termAtMost arena bound test) (← termAtMost arena bound consequent)
        (← termAtMost arena bound alternate))
    | .array items => some (.array (← items.mapM (termAtMost arena bound)))
    | .spread inner => some (.spread (← termAtMost arena bound inner))
    | .paren inner => some (.paren (← termAtMost arena bound inner))
    | .verbatim => none

/-- The tree of an expression. -/
def Arena.term? (arena : Arena) (id : ExprId) : Option Term :=
  arena.termAtMost (arena.size + 1) id

end UtilityClasses
