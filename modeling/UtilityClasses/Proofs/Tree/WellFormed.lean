import UtilityClasses.Proofs.Tree.Parens
import UtilityClasses.Proofs.Tree.Row
import UtilityClasses.Tree.Element

/-!
# Well-formed markup

The elements, the attributes and the expressions of a source that has been read are nested in
one another as their text is. This file says what that means, part by part, and that storing
one more expression keeps the parts that are there well-formed.
-/

namespace UtilityClasses

/-! ### Expressions -/

/-- Where the expression `id` stands. -/
def Arena.span? (arena : Arena) (id : ExprId) : Option Span :=
  arena[id]?.map Expr.span

/-- An expression whose children have the given spans: they lie in it, one after the other. -/
structure Expr.Encloses (expr : Expr) (arena : Arena) (spans : List Span) : Prop where
  spans_eq : expr.shape.children.map arena.span? = spans.map some
  row : Row expr.span.start spans expr.span.stop

/-- The children of every expression come before it in the arena and lie in it, one after the
other. A template has one text more than it has holes. -/
structure Arena.WellFormed (arena : Arena) : Prop where
  earlier {id : ExprId} {expr : Expr} (h : arena[id]? = some expr) :
    ∀ child ∈ expr.shape.children, child < id
  encloses {id : ExprId} {expr : Expr} (h : arena[id]? = some expr) :
    ∃ spans, expr.Encloses arena spans
  texts {id : ExprId} {span : Span} {texts : List String} {holes : List ExprId}
    (h : arena[id]? = some ⟨.template texts holes, span⟩) : texts.length = holes.length + 1

/-- The children of all expressions. -/
def Arena.refs (arena : Arena) : List ExprId :=
  arena.toList.flatMap fun expr => expr.shape.children

/-! ### Attributes and elements -/

/-- The root of a container lies between the braces. -/
def AttrValue.WellFormed (arena : Arena) : AttrValue → Prop
  | .literal _ => True
  | .container span id =>
    ∃ root, arena.span? id = some root ∧ span.start < root.start ∧ root.stop < span.stop

/-- The expressions that a value refers to. -/
def AttrValue.refs : AttrValue → List ExprId
  | .literal _ => []
  | .container _ id => [id]

/-- The name of an attribute and its value lie in it, the value after the name. -/
structure Attribute.WellFormed (arena : Arena) (attr : Attribute) : Prop where
  row : Row attr.span.start (attr.nameSpan :: (attr.value.map AttrValue.span).toList)
    attr.span.stop
  value : ∀ value ∈ attr.value, value.WellFormed arena

/-- The expressions that an attribute refers to. -/
def Attribute.refs (attr : Attribute) : List ExprId :=
  attr.value.toList.flatMap AttrValue.refs

/-- The attributes of an element lie in it, one after the other. -/
structure Element.WellFormed (arena : Arena) (element : Element) : Prop where
  span : element.span.start < element.span.stop
  row : Row element.span.start (element.attributes.map Attribute.span) element.span.stop
  attrs : ∀ attr ∈ element.attributes, attr.WellFormed arena

/-- The expressions that an element refers to. -/
def Element.refs (element : Element) : List ExprId :=
  element.attributes.flatMap Attribute.refs

/-! ### Markup -/

/-- Two spans lie apart, or one of them lies in the other. -/
def Span.Nests (span other : Span) : Prop :=
  span.stop ≤ other.start ∨ other.stop ≤ span.start ∨
    span.contains other = true ∨ other.contains span = true

theorem Span.Nests.symm {span other : Span} (h : span.Nests other) :
  other.Nests span
  := by
  obtain h | h | h | h := h
  · apply Or.inr (.inl h)
  · apply Or.inl h
  · apply Or.inr (.inr (.inr h))
  · apply Or.inr (.inr (.inl h))

namespace Markup

/-- The expressions that are referred to by attributes and by other expressions. -/
def refs (markup : Markup) : List ExprId :=
  markup.elements.flatMap Element.refs ++ markup.arena.refs

/-- The expressions that can be reached from the attributes of a source. -/
inductive Reachable (markup : Markup) : ExprId → Prop
  | root {element : Element} {attr : Attribute} {span : Span} {id : ExprId}
      (helement : element ∈ markup.elements) (hattr : attr ∈ element.attributes)
      (hvalue : attr.value = some (.container span id)) : Reachable markup id
  | child {id child : ExprId} {expr : Expr} (h : Reachable markup id)
      (hexpr : markup.arena[id]? = some expr) (hchild : child ∈ expr.shape.children) :
      Reachable markup child

/-- What holds of the markup of every source that can be read. -/
structure WellFormed (markup : Markup) : Prop where
  /-- No two elements start at the same place, and they are listed by their positions. -/
  sorted : markup.elements.Pairwise fun a b => a.span.start < b.span.start
  nested : ∀ a ∈ markup.elements, ∀ b ∈ markup.elements, a.span.Nests b.span
  element : ∀ element ∈ markup.elements, element.WellFormed markup.arena
  arena : markup.arena.WellFormed
  /-- Nothing that can be reached lies outside the arena. -/
  reachable : ∀ id, markup.Reachable id → id < markup.arena.size
  /-- Every expression is referred to at most once. -/
  once : markup.refs.Nodup

end Markup

/-! ### Storing one more expression -/

section Push

variable {arena : Arena} {id : ExprId} {expr : Expr} {span : Span}

/-- An expression that stands somewhere is in the arena. -/
theorem Arena.lt_size_of_span? (h : arena.span? id = some span) :
  id < arena.size
  := by
  obtain ⟨expr, hexpr, -⟩ := Option.map_eq_some_iff.mp h
  apply (Array.getElem?_eq_some_iff.mp hexpr).1

/-- An expression that is in the arena stands at its span. -/
theorem Arena.span?_of_getElem? (h : arena[id]? = some expr) :
  arena.span? id = some expr.span
  := by
  rw [span?, h, Option.map_some]

theorem Arena.span?_push (expr : Expr) (h : arena.span? id = some span) :
  Arena.span? (arena.push expr) id = some span
  := by
  obtain ⟨old, hold, rfl⟩ := Option.map_eq_some_iff.mp h
  simp [Arena.span?, Arena.getElem?_push_of_some hold]

@[simp]
theorem Arena.span?_push_size (arena : Arena) (expr : Expr) :
  Arena.span? (arena.push expr) arena.size = some expr.span
  := by
  simp [Arena.span?]

/-- What is in an arena with one more expression is the new expression or was there before. -/
theorem Arena.getElem?_push_cases {new : Expr} (h : (arena.push new)[id]? = some expr) :
  (id = arena.size ∧ expr = new) ∨ arena[id]? = some expr
  := by
  rw [Array.getElem?_push] at h
  split at h
  · next hid => apply Or.inl ⟨hid, (Option.some.inj h).symm⟩
  · apply Or.inr h

theorem Expr.Encloses.push {spans : List Span} (h : expr.Encloses arena spans) (new : Expr) :
  expr.Encloses (arena.push new) spans
  where
  spans_eq := by
    rw [← h.spans_eq]
    apply List.map_congr_left
    intro child hchild
    have hmem := List.mem_map_of_mem (f := arena.span?) hchild
    rw [h.spans_eq] at hmem
    obtain ⟨span, -, hspan⟩ := List.mem_map.mp hmem
    rw [← hspan, arena.span?_push new hspan.symm]
  row := h.row

/-- An arena stays well-formed when an expression is stored whose children are there. -/
theorem Arena.WellFormed.push (h : arena.WellFormed) {spans : List Span}
    (hencloses : expr.Encloses arena spans)
    (htexts : ∀ texts holes, expr.shape = .template texts holes →
      texts.length = holes.length + 1) :
  Arena.WellFormed (arena.push expr)
  where
  earlier := by
    intro id old hold child hchild
    obtain ⟨rfl, rfl⟩ | hold := Arena.getElem?_push_cases hold
    · have hmem := List.mem_map_of_mem (f := arena.span?) hchild
      rw [hencloses.spans_eq] at hmem
      obtain ⟨span, -, hspan⟩ := List.mem_map.mp hmem
      apply Arena.lt_size_of_span? hspan.symm
    · apply h.earlier hold child hchild
  encloses := by
    intro id old hold
    obtain ⟨rfl, rfl⟩ | hold := Arena.getElem?_push_cases hold
    · apply Exists.intro spans (hencloses.push old)
    · obtain ⟨spans, hspans⟩ := h.encloses hold
      apply Exists.intro spans (hspans.push expr)
  texts := by
    intro id span texts holes hold
    obtain ⟨rfl, rfl⟩ | hold := Arena.getElem?_push_cases hold
    · apply htexts texts holes rfl
    · apply h.texts hold

theorem AttrValue.WellFormed.push {value : AttrValue} (h : value.WellFormed arena)
    (expr : Expr) :
  value.WellFormed (arena.push expr)
  := by
  cases value with
  | literal _ => trivial
  | container span id =>
    obtain ⟨root, hroot, hspan⟩ := h
    use root, arena.span?_push expr hroot

theorem Attribute.WellFormed.push {attr : Attribute} (h : attr.WellFormed arena)
    (expr : Expr) :
  attr.WellFormed (arena.push expr)
  where
  row := h.row
  value value hvalue := (h.value value hvalue).push expr

theorem Element.WellFormed.push {element : Element} (h : element.WellFormed arena)
    (expr : Expr) :
  element.WellFormed (arena.push expr)
  where
  span := h.span
  row := h.row
  attrs attr hattr := (h.attrs attr hattr).push expr

end Push

end UtilityClasses
