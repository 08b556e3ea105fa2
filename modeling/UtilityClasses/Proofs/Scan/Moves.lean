import Mathlib.Logic.Relation
import UtilityClasses.Literal.Escape
import UtilityClasses.Proofs.Scan.Trivia
import UtilityClasses.Proofs.Tree.Parens

/-!
# The moves of a scan

A scan that succeeds is a run of a machine with a stack. The machine passes over text, it
pushes what it has just read, and it takes from the top of the stack the parts of an
expression, of an attribute or of an element and puts the whole in their place. What was
tried and given up leaves no moves. So an invariant of the machine, proved with one case
for each move, holds of every scan.
-/

namespace UtilityClasses.Scan

open Text (byteSize)

/-! ### Places of a scan -/

/-- The text between two places of a scan. -/
structure State.Covers (s : State) (text : List Char) (t : State) : Prop where
  rest : s.rest = text ++ t.rest
  pos : t.pos = s.pos + byteSize text

/-- The expression starts where the scan stands, apart from blanks and comments. -/
def State.Starts (state : State) (node : Node) : Prop :=
  ∃ gap later, state.rest = gap ++ later ∧
    node.span.start = state.pos + byteSize gap ∧ IsTrivia gap

/-- A span ends between two places of a scan, with nothing but blanks and comments after it. -/
def State.Ends (s : State) (span : Span) (t : State) : Prop :=
  ∃ inside gap, s.Covers (inside ++ gap) t ∧ span.stop = s.pos + byteSize inside ∧ IsTrivia gap

/-- The expression stands between two places of a scan, with nothing but blanks and comments
around it. -/
def State.Holds (s : State) (node : Node) (t : State) : Prop :=
  ∃ first inside last, s.Covers (first ++ (inside ++ last)) t ∧ IsTrivia first ∧ IsTrivia last ∧
    node.span.start = s.pos + byteSize first ∧
    node.span.stop = node.span.start + byteSize inside

section Places

variable {s t u : State} {text text' : List Char} {span : Span} {node : Node}

theorem State.Covers.refl (s : State) :
  s.Covers [] s
  where
  rest := rfl
  pos := rfl

theorem State.Covers.trans (h : s.Covers text t) (h' : t.Covers text' u) :
  s.Covers (text ++ text') u
  where
  rest := by rw [h.rest, h'.rest, List.append_assoc]
  pos := by rw [h'.pos, h.pos, Text.byteSize_append, Nat.add_assoc]

theorem State.covers_take (s : State) (count : Nat) :
  s.Covers (s.rest.take count) (s.after count)
  where
  rest := by rw [State.after_rest, List.take_append_drop]
  pos := rfl

theorem State.covers_length {later : List Char} (h : s.rest = text ++ later) :
  s.Covers text (s.after text.length)
  := by
  simpa [h] using s.covers_take text.length

/-- Between two places there is one text. -/
theorem State.Covers.unique (h : s.Covers text t) (h' : s.Covers text' t) :
  text = text'
  := by
  have hrest := h.rest
  rw [h'.rest, List.append_cancel_right_eq] at hrest
  apply hrest.symm

theorem State.Holds.starts (h : s.Holds node t) :
  s.Starts node
  := by
  obtain ⟨first, inside, last, hcovers, hfirst, -, hstart, -⟩ := h
  use first, inside ++ last ++ t.rest, by simpa using hcovers.rest, hstart, hfirst

theorem State.Holds.ends (h : s.Holds node t) :
  s.Ends node.span t
  := by
  obtain ⟨first, inside, last, hcovers, -, hlast, hstart, hstop⟩ := h
  use first ++ inside, last
  refine ⟨by simpa using hcovers, ?_, hlast⟩
  rw [hstop, hstart, Text.byteSize_append, Nat.add_assoc]

/-- A span that ends where the scan stands. -/
theorem State.Covers.ends (h : s.Covers text t) (hstop : span.stop = t.pos) :
  s.Ends span t
  := by
  use text, [], by simpa using h, hstop.trans h.pos, IsTrivia.nil

theorem State.Ends.of_covers (h : s.Covers text t) (h' : t.Ends span u) :
  s.Ends span u
  := by
  obtain ⟨inside, gap, hcovers, hstop, hgap⟩ := h'
  use text ++ inside, gap
  refine ⟨by simpa using h.trans hcovers, ?_, hgap⟩
  rw [hstop, h.pos, Text.byteSize_append, Nat.add_assoc]

/-- A span that starts where the scan stands. -/
theorem State.Ends.holds (h : s.Ends node.span t) (hstart : node.span.start = s.pos) :
  s.Holds node t
  := by
  obtain ⟨inside, gap, hcovers, hstop, hgap⟩ := h
  use [], inside, gap, hcovers, IsTrivia.nil, hgap, hstart, by rw [hstop, hstart]

/-- Blanks and comments may be passed before an expression. -/
theorem State.Holds.of_covers (h : s.Covers text t) (htext : IsTrivia text)
    (h' : t.Holds node u) :
  s.Holds node u
  := by
  obtain ⟨first, inside, last, hcovers, hfirst, hlast, hstart, hstop⟩ := h'
  use text ++ first, inside, last
  refine ⟨by simpa using h.trans hcovers, htext.append hfirst, hlast, ?_, hstop⟩
  rw [hstart, h.pos, Text.byteSize_append, Nat.add_assoc]

/-- Blanks and comments may be passed after an expression. -/
theorem State.Holds.trans_covers (h : s.Holds node t) (h' : t.Covers text u)
    (htext : IsTrivia text) :
  s.Holds node u
  := by
  obtain ⟨first, inside, last, hcovers, hfirst, hlast, hstart, hstop⟩ := h
  use first, inside, last ++ text
  refine ⟨by simpa using hcovers.trans h', hfirst, hlast.append htext, hstart, hstop⟩

/-- An expression that is extended by what comes after it. -/
theorem State.Holds.extend {node' : Node} (h : s.Holds node t) (h' : t.Ends node'.span u)
    (hstart : node'.span.start = node.span.start) :
  s.Holds node' u
  := by
  obtain ⟨first, inside, last, hcovers, hfirst, -, hfrom, -⟩ := h
  obtain ⟨more, gap, hcovers', hstop, hgap⟩ := h'
  use first, inside ++ (last ++ more), gap
  refine ⟨by simpa using hcovers.trans hcovers', hfirst, hgap, hstart.trans hfrom, ?_⟩
  rw [hstop, hcovers.pos, hstart, hfrom]
  simp only [Text.byteSize_append]
  omega

end Places

/-! ### What is loose -/

/-- What has been read and does not yet belong to anything. -/
inductive Loose where
  /-- The place where a construct was opened. -/
  | mark (opening : State)
  /-- The text of a template up to a hole or to its end. -/
  | text (start : Nat) (body : List Char)
  | node (node : Node)
  /-- The start of a tag, up to the end of its name. -/
  | tag (name : List Char) (span : Span)
  /-- The name of an attribute. -/
  | name (name : List Char) (span : Span)
  | value (value : AttrValue)
  | attr (attr : Attribute)

/-- Where a loose item stands. -/
def Loose.span : Loose → Span
  | mark opening => ⟨opening.pos, opening.pos⟩
  | text start body => ⟨start, start + byteSize body⟩
  | node n => n.span
  | tag _ span | name _ span => span
  | value v => v.span
  | attr a => a.span

/-- The texts and the holes of a template as they lie on the stack, the last hole on top. What
has been passed since the start of the first text are these texts and holes in turns. -/
inductive Holes (start : Nat) : List Char → List Loose → List String → List ExprId → Prop
  | none : Holes start [] [] [] []
  | more {passed : List Char} {items : List Loose} {texts : List String} {holes : List ExprId}
      {body first inside last : List Char} {node : Node}
      (before : Holes start passed items texts holes)
      (hbody : templateText body = body.length) (hfirst : IsTrivia first)
      (hlast : IsTrivia last)
      (hstart : node.span.start = start + byteSize (passed ++ (body ++ '$' :: '\x7b' :: first)))
      (hstop : node.span.stop = node.span.start + byteSize inside) :
      Holes start
        (passed ++ ((body ++ '$' :: '\x7b' :: first) ++ (inside ++ (last ++ ['\x7d']))))
        (.node node :: .text (start + byteSize passed) body :: items)
        (texts ++ [String.ofList (Literal.decode body)]) (holes ++ [node.id])

/-- The items, the last on top, are the parts of an expression of a given shape and span that
ends where the scan stands. No element has been read inside a literal. -/
inductive Forms (now : State) : List Loose → ExprShape → Span → Prop
  | string {opening : State} {quote : Quote} {delimiter : Char} {body : List Char}
      (hquote : quote.char? = some delimiter)
      (htext : opening.rest = delimiter :: (body ++ delimiter :: now.rest))
      (helements : now.elements = opening.elements) :
      Forms now [.mark opening] (.str quote (String.ofList (Literal.decode body)))
        ⟨opening.pos, now.pos⟩
  | template {opening : State} {passed body : List Char} {items : List Loose}
      {texts : List String} {holes : List ExprId}
      (htext : opening.rest = '\x60' :: (passed ++ body ++ '\x60' :: now.rest))
      (hholes : Holes (opening.pos + 1) passed items texts holes)
      (hbody : templateText body = body.length)
      (helements : holes = [] → now.elements = opening.elements) :
      Forms now (.text (opening.pos + 1 + byteSize passed) body :: items ++ [.mark opening])
        (.template (texts ++ [String.ofList (Literal.decode body)]) holes)
        ⟨opening.pos, now.pos⟩
  | ident {opening : State} {name : List Char} (htext : opening.rest = name ++ now.rest) :
      Forms now [.mark opening] (.ident (String.ofList name)) ⟨opening.pos, now.pos⟩
  | verbatim (opening : State) :
      Forms now [.mark opening] .verbatim ⟨opening.pos, now.pos⟩
  | paren {opening : State} (inner : Node) (hopening : opening.rest.head? = some '(')
      (hclosing : ')' :: now.rest <:+ opening.rest.tail) :
      Forms now [.node inner, .mark opening] (.paren inner.id) ⟨opening.pos, now.pos⟩
  | array (opening : State) (items : List Node) :
      Forms now (items.reverse.map .node ++ [.mark opening]) (.array (items.map Node.id))
        ⟨opening.pos, now.pos⟩
  | member (object : Node) (property : String) :
      Forms now [.node object] (.member object.id property) ⟨object.span.start, now.pos⟩
  | call (callee : Node) (args : List Node) :
      Forms now (args.reverse.map .node ++ [.node callee])
        (.call callee.id (args.map Node.id)) ⟨callee.span.start, now.pos⟩
  | index (object index : Node) :
      Forms now [.node index, .node object] .verbatim ⟨object.span.start, now.pos⟩
  | asserted (object : Node) :
      Forms now [.node object] .verbatim ⟨object.span.start, now.pos⟩
  | spread (opening : State) (inner : Node) :
      Forms now [.node inner, .mark opening] (.spread inner.id)
        ⟨opening.pos, inner.span.stop⟩
  | unary (opening : State) (inner : Node) :
      Forms now [.node inner, .mark opening] .verbatim ⟨opening.pos, inner.span.stop⟩
  | logical (op : LogicalOp) (left right : Node) :
      Forms now [.node right, .node left] (.logical op left.id right.id)
        (left.span.merge right.span)
  | conditional (test consequent alternate : Node) :
      Forms now [.node alternate, .node consequent, .node test]
        (.conditional test.id consequent.id alternate.id) (test.span.merge alternate.span)

/-! ### Moves -/

/-- One move of a scan, on its state and on the stack of what is loose. -/
inductive Move : State × List Loose → State × List Loose → Prop
  | pass (s : State) (stack : List Loose) (count : Nat) :
      Move (s, stack) (s.after count, stack)
  | mark (s : State) (stack : List Loose) :
      Move (s, stack) (s, .mark s :: stack)
  | text {s : State} (stack : List Loose) {body later : List Char}
      (htext : s.rest = body ++ later) :
      Move (s, stack) (s.after body.length, .text s.pos body :: stack)
  | node {s : State} (stack : List Loose) {items : List Loose} {shape : ExprShape}
      {span : Span} (hforms : Forms s items shape span) :
      Move (s, items ++ stack)
        ({ s with arena := s.arena.push ⟨shape, span⟩ }, .node ⟨s.arena.size, span⟩ :: stack)
  | tag {s s' : State} (stack : List Loose) {name later : List Char}
      (htext : s.rest = '<' :: name ++ later) (hafter : s' = s.after (name.length + 1)) :
      Move (s, stack) (s', .tag name ⟨s.pos, s'.pos⟩ :: stack)
  | name {s s' : State} (stack : List Loose) {name later : List Char}
      (htext : s.rest = name ++ later) (hafter : s' = s.after name.length) :
      Move (s, stack) (s', .name name ⟨s.pos, s'.pos⟩ :: stack)
  | quoted {s s' : State} (stack : List Loose) {quote : Quote} {delimiter : Char}
      {value later : List Char} (hquote : quote.char? = some delimiter)
      (htext : s.rest = delimiter :: (value ++ delimiter :: later))
      (hafter : s' = s.after (value.length + 2)) (hvalue : delimiter ∉ value) :
      Move (s, stack)
        (s', .value (.literal ⟨quote, String.ofList value, ⟨s.pos, s'.pos⟩⟩) :: stack)
  | bare {s s' : State} (stack : List Loose) {value later : List Char}
      (htext : s.rest = value ++ later) (hafter : s' = s.after value.length) (hne : value ≠ [])
      (hvalue : ∀ c ∈ value, isSpacing c = false ∧ c ≠ '>') :
      Move (s, stack)
        (s', .value (.literal ⟨.bare, String.ofList value, ⟨s.pos, s'.pos⟩⟩) :: stack)
  /-- A container in which no element lies if it holds nothing but a literal. -/
  | container {s s' opening : State} (stack : List Loose) (root : Node)
      (hopening : opening.rest.head? = some '\x7b') (hstarts : (opening.after 1).Starts root)
      (hliteral : s.elements = opening.elements ∨ s.arena.WrapsOther root.id)
      (hclosing : s.rest.head? = some '\x7d') (hafter : s' = s.after 1) :
      Move (s, .node root :: .mark opening :: stack)
        (s', .value (.container ⟨opening.pos, s'.pos⟩ root.id) :: stack)
  | withValue (s : State) (stack : List Loose) (value : AttrValue) (name : List Char)
      (span : Span) :
      Move (s, .value value :: .name name span :: stack)
        (s, .attr ⟨String.ofList name, span, some value, ⟨span.start, s.pos⟩⟩ :: stack)
  /-- An attribute that ends with its name, or one whose value is an element. -/
  | withoutValue (s : State) (stack : List Loose) (name : List Char) (span : Span) {stop : Nat}
      (hstop : stop = span.stop ∨ stop = s.pos) :
      Move (s, .name name span :: stack)
        (s, .attr ⟨String.ofList name, span, none, ⟨span.start, stop⟩⟩ :: stack)
  | element {s s' : State} (stack : List Loose) (name : List Char) (span : Span)
      (attributes : List Attribute) {ending : List Char} (hending : ending <+: s.rest)
      (hclosing : ending = ['>'] ∨ ending = ['/', '>'])
      (hafter : s' = s.after ending.length) :
      Move (s, attributes.reverse.map .attr ++ .tag name span :: stack)
        ({ s' with elements :=
            s'.elements.push ⟨String.ofList name, ⟨span.start, s'.pos⟩, attributes⟩ }, stack)

/-- Any number of moves. -/
abbrev Steps : State × List Loose → State × List Loose → Prop :=
  Relation.ReflTransGen Move

/-- Every step that makes a move establishes what is kept by every move. -/
theorem Steps.induct {P : State × List Loose → Prop} {c c' : State × List Loose}
    (hmove : ∀ {c c'}, Move c c' → P c → P c') (h : Steps c c') (hc : P c) :
  P c'
  := by
  induction h with
  | refl => apply hc
  | tail _ hmove' ih => apply hmove hmove' ih

/-- Passing over text is a move. -/
theorem Steps.pass (s : State) (stack : List Loose) (count : Nat) :
  Steps (s, stack) (s.after count, stack)
  := .single (.pass s stack count)

/-- The moves that read an expression from one state to another. -/
structure Reads (s : State) (node : Node) (s' : State) : Prop where
  steps (stack : List Loose) : Steps (s, stack) (s', .node node :: stack)
  holds : s.Holds node s'
  /-- No element lies in an expression that is a literal but for parentheses. -/
  literal : s'.elements = s.elements ∨ s'.arena.WrapsOther node.id

/-- The scans of nested constructs are made of moves. -/
structure Nested.Traced (nested : Nested) : Prop where
  code {stops : List Char} {s s' : State} {found : Bool}
    (h : Runs (nested.code stops) s found s') (stack : List Loose) :
    Steps (s, stack) (s', stack)
  element {s s' : State} {found : Bool} (h : Runs nested.element s found s')
    (stack : List Loose) : Steps (s, stack) (s', stack)
  region {stops : List Char} {s s' : State} {node : Node}
    (h : Runs (nested.region stops) s node s') : Reads s node s'
  expression {s s' : State} {node : Node} (h : Yields nested.expression s node s') :
    Reads s node s'
  operand {s s' : State} {node : Node} (h : Yields nested.operand s node s') : Reads s node s'

end UtilityClasses.Scan
