import UtilityClasses.Proofs.Tree.WellFormed

/-!
# Renumbering

Nodes are known by their numbers, and numbers depend on what has been stored before. Two readings
of one text that store the same in different company agree up to a renumbering.
-/

namespace UtilityClasses

variable {ρ σ : ExprId → ExprId}

/-- The shape with other numbers for the children. -/
def ExprShape.renumber (ρ : ExprId → ExprId) : ExprShape → ExprShape
  | str quote value => str quote value
  | template texts holes => template texts (holes.map ρ)
  | ident name => ident name
  | member object property => member (ρ object) property
  | call callee args => call (ρ callee) (args.map ρ)
  | logical op left right => logical op (ρ left) (ρ right)
  | conditional test consequent alternate =>
    conditional (ρ test) (ρ consequent) (ρ alternate)
  | array items => array (items.map ρ)
  | spread inner => spread (ρ inner)
  | paren inner => paren (ρ inner)
  | verbatim => verbatim

theorem ExprShape.renumber_renumber (shape : ExprShape) :
  (shape.renumber ρ).renumber σ = shape.renumber (σ ∘ ρ)
  := by
  cases shape <;> simp [renumber]

theorem ExprShape.renumber_congr {shape : ExprShape} (h : ∀ id ∈ shape.children, ρ id = σ id) :
  shape.renumber ρ = shape.renumber σ
  := by
  cases shape <;> simp_all [renumber, children, List.map_inj_left]

theorem ExprShape.children_renumber (shape : ExprShape) :
  (shape.renumber ρ).children = shape.children.map ρ
  := by
  cases shape <;> simp [renumber, children]

/-- The expression with other numbers for its children. -/
def Expr.renumber (ρ : ExprId → ExprId) (expr : Expr) : Expr :=
  { expr with shape := expr.shape.renumber ρ }

theorem Expr.renumber_renumber (expr : Expr) :
  (expr.renumber ρ).renumber σ = expr.renumber (σ ∘ ρ)
  := by
  simp only [renumber, ExprShape.renumber_renumber]

theorem Expr.renumber_congr {expr : Expr} (h : ∀ id ∈ expr.shape.children, ρ id = σ id) :
  expr.renumber ρ = expr.renumber σ
  := by
  simp only [renumber, ExprShape.renumber_congr h]

/-- The value with another number for the expression in a container. -/
def AttrValue.renumber (ρ : ExprId → ExprId) : AttrValue → AttrValue
  | literal text => literal text
  | container span expr => container span (ρ expr)

theorem AttrValue.renumber_renumber (value : AttrValue) :
  (value.renumber ρ).renumber σ = value.renumber (σ ∘ ρ)
  := by
  cases value <;> rfl

theorem AttrValue.renumber_congr {value : AttrValue} (h : ∀ id ∈ value.refs, ρ id = σ id) :
  value.renumber ρ = value.renumber σ
  := by
  cases value with
  | literal text => rfl
  | container span expr => rw [renumber, renumber, h expr (by simp [refs])]

theorem AttrValue.refs_renumber (value : AttrValue) :
  (value.renumber ρ).refs = value.refs.map ρ
  := by
  cases value <;> rfl

/-- The attribute with another number for its expression. -/
def Attribute.renumber (ρ : ExprId → ExprId) (attr : Attribute) : Attribute :=
  { attr with value := attr.value.map (·.renumber ρ) }

theorem Attribute.renumber_renumber (attr : Attribute) :
  (attr.renumber ρ).renumber σ = attr.renumber (σ ∘ ρ)
  := by
  simp only [renumber, Option.map_map, Function.comp_def, AttrValue.renumber_renumber]

theorem Attribute.renumber_congr {attr : Attribute} (h : ∀ id ∈ attr.refs, ρ id = σ id) :
  attr.renumber ρ = attr.renumber σ
  := by
  have hvalue : attr.value.map (·.renumber ρ) = attr.value.map (·.renumber σ) := by
    apply Option.map_congr
    intro value hmem
    apply AttrValue.renumber_congr
    intro id hid
    apply h
    simp only [refs, List.mem_flatMap, Option.mem_toList]
    exact ⟨value, hmem, hid⟩
  simp only [renumber, hvalue]

theorem Attribute.refs_renumber (attr : Attribute) :
  (attr.renumber ρ).refs = attr.refs.map ρ
  := by
  obtain ⟨name, nameSpan, value, span⟩ := attr
  cases value <;> simp [renumber, refs, AttrValue.refs_renumber]

/-- The element with other numbers for the expressions of its attributes. Names and spans stay as
they are. -/
def Element.renumber (ρ : ExprId → ExprId) (element : Element) : Element :=
  { element with attributes := element.attributes.map (·.renumber ρ) }

theorem Element.renumber_renumber (element : Element) :
  (element.renumber ρ).renumber σ = element.renumber (σ ∘ ρ)
  := by
  simp only [renumber, List.map_map, Function.comp_def, Attribute.renumber_renumber]

theorem Element.renumber_congr {element : Element} (h : ∀ id ∈ element.refs, ρ id = σ id) :
  element.renumber ρ = element.renumber σ
  := by
  have hattributes : element.attributes.map (·.renumber ρ) =
      element.attributes.map (·.renumber σ) := by
    rw [List.map_inj_left]
    intro attr hmem
    apply Attribute.renumber_congr
    intro id hid
    apply h
    simp only [refs, List.mem_flatMap]
    exact ⟨attr, hmem, hid⟩
  simp only [renumber, hattributes]

theorem Element.refs_renumber (element : Element) :
  (element.renumber ρ).refs = element.refs.map ρ
  := by
  simp only [renumber, refs, List.flatMap_map, List.map_flatMap, Attribute.refs_renumber]

end UtilityClasses
