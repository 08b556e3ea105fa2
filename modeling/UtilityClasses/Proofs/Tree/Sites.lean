import UtilityClasses.Proofs.Tree.Walk

/-!
# Sites

The sites of a value are the spans that a replacement may have in it: the value itself if it
is a literal, the whole container if it holds nothing but a template without holes, and
otherwise the literals in the expression. Sites lie in what they are sites of, and they stay
the same when another expression is stored.
-/

namespace UtilityClasses

/-! ### Spans that lie apart -/

/-- Neither of two spans reaches into the other. -/
def Span.Apart (span other : Span) : Prop :=
  span.stop ≤ other.start ∨ other.stop ≤ span.start

theorem Span.Apart.symm {span other : Span} (h : span.Apart other) :
  other.Apart span
  := Or.symm h

/-- Some of the spans that lie apart, in any order. -/
theorem pairwise_apart_of_subperm {spans spans' : List Span} (h : spans.Pairwise Span.Apart)
    (hsub : spans'.Subperm spans) :
  spans'.Pairwise Span.Apart
  := by
  obtain ⟨sorted, hperm, hsub⟩ := hsub
  apply hperm.pairwise (h.sublist hsub) Span.Apart.symm

/-! ### The sites of values, attributes and elements -/

/-- Whether the shape is that of a template without holes. -/
def ExprShape.isStatic (shape : ExprShape) : Bool :=
  shape.staticText?.isSome

theorem ExprShape.isLiteral_of_isStatic {shape : ExprShape} (h : shape.isStatic = true) :
  shape.isLiteral = true
  := by
  cases shape with
  | template texts holes =>
    cases holes with
    | nil => rfl
    | cons => simp [isStatic, staticText?] at h
  | _ => simp [isStatic, staticText?] at h

/-- The spans that a replacement may have in a value. -/
def AttrValue.sites (arena : Arena) : AttrValue → List Span
  | .literal text => [text.span]
  | .container span id =>
    if (arena.core? id).any fun core => core.shape.isStatic then [span] else arena.leaves id

/-- The spans that a replacement may have in an attribute. -/
def Attribute.sites (arena : Arena) (attr : Attribute) : List Span :=
  attr.value.toList.flatMap (AttrValue.sites arena)

/-- The spans that a replacement may have in an element. -/
def Element.sites (arena : Arena) (element : Element) : List Span :=
  element.attributes.flatMap (Attribute.sites arena)

variable {arena : Arena} {site : Span}

/-! ### Sites lie in what they are sites of -/

/-- The leaves of an expression that stands at a span lie in that span. -/
theorem Arena.leaves_within_span (h : arena.WellFormed) {id : ExprId} {span : Span}
    (hspan : arena.span? id = some span) (hsite : site ∈ arena.leaves id) :
  span.start ≤ site.start ∧ site.stop ≤ span.stop
  := by
  obtain ⟨expr, hexpr, rfl⟩ := Option.map_eq_some_iff.mp hspan
  apply leaves_within h (Arena.lt_size_of_span? hspan) expr hexpr site hsite

theorem AttrValue.sites_within (h : arena.WellFormed) {value : AttrValue}
    (hvalue : value.WellFormed arena) (hsite : site ∈ value.sites arena) :
  value.span.start ≤ site.start ∧ site.stop ≤ value.span.stop
  := by
  cases value with
  | literal text =>
    obtain rfl := List.mem_singleton.mp hsite
    apply And.intro (Nat.le_refl _) (Nat.le_refl _)
  | container span id =>
    rw [sites] at hsite
    split at hsite
    · obtain rfl := List.mem_singleton.mp hsite
      apply And.intro (Nat.le_refl _) (Nat.le_refl _)
    · obtain ⟨root, hroot, hstart, hstop⟩ := hvalue
      obtain ⟨hstart', hstop'⟩ := Arena.leaves_within_span h hroot hsite
      apply And.intro
      · apply Nat.le_trans (Nat.le_of_lt hstart) hstart'
      · apply Nat.le_trans hstop' (Nat.le_of_lt hstop)

/-- The value of an attribute lies in it. -/
theorem Attribute.WellFormed.value_within {attr : Attribute} (h : attr.WellFormed arena)
    {value : AttrValue} (hvalue : attr.value = some value) :
  attr.span.start ≤ value.span.start ∧ value.span.stop ≤ attr.span.stop
  := by
  have hrow := h.row
  rw [hvalue] at hrow
  have hmem : value.span ∈ [attr.nameSpan, value.span] := by simp
  obtain ⟨hstart, -, hstop⟩ := hrow.of_mem hmem
  apply And.intro hstart hstop

theorem Attribute.sites_within (h : arena.WellFormed) {attr : Attribute}
    (hattr : attr.WellFormed arena) (hsite : site ∈ attr.sites arena) :
  attr.span.start ≤ site.start ∧ site.stop ≤ attr.span.stop
  := by
  obtain ⟨value, hvalue, hsite⟩ := List.mem_flatMap.mp hsite
  rw [Option.mem_toList] at hvalue
  obtain ⟨hstart, hstop⟩ := AttrValue.sites_within h (hattr.value value hvalue) hsite
  obtain ⟨hstart', hstop'⟩ := hattr.value_within hvalue
  apply And.intro (Nat.le_trans hstart' hstart) (Nat.le_trans hstop hstop')

theorem Element.sites_within (h : arena.WellFormed) {element : Element}
    (helement : element.WellFormed arena) (hsite : site ∈ element.sites arena) :
  element.span.start ≤ site.start ∧ site.stop ≤ element.span.stop
  := by
  obtain ⟨attr, hattr, hsite⟩ := List.mem_flatMap.mp hsite
  obtain ⟨hstart, hstop⟩ := Attribute.sites_within h (helement.attrs attr hattr) hsite
  obtain ⟨hstart', -, hstop'⟩ := helement.row.of_mem (List.mem_map_of_mem hattr)
  apply And.intro (Nat.le_trans hstart' hstart) (Nat.le_trans hstop hstop')

/-! ### Storing one more expression -/

theorem AttrValue.sites_push (h : arena.WellFormed) {new : Expr}
    (hnew : Arena.WellFormed (arena.push new)) {value : AttrValue}
    (hvalue : value.WellFormed arena) :
  value.sites (arena.push new) = value.sites arena
  := by
  cases value with
  | literal _ => rfl
  | container span id =>
    obtain ⟨root, hroot, -⟩ := hvalue
    have hid := Arena.lt_size_of_span? hroot
    rw [sites, Arena.core?_push h hnew hid, Arena.leaves_push h hnew hid, sites]

theorem Attribute.sites_push (h : arena.WellFormed) {new : Expr}
    (hnew : Arena.WellFormed (arena.push new)) {attr : Attribute}
    (hattr : attr.WellFormed arena) :
  attr.sites (arena.push new) = attr.sites arena
  := by
  apply List.flatMap_congr
  intro value hvalue
  apply AttrValue.sites_push h hnew (hattr.value value (Option.mem_toList.mp hvalue))

theorem Element.sites_push (h : arena.WellFormed) {new : Expr}
    (hnew : Arena.WellFormed (arena.push new)) {element : Element}
    (helement : element.WellFormed arena) :
  element.sites (arena.push new) = element.sites arena
  := by
  apply List.flatMap_congr
  intro attr hattr
  apply Attribute.sites_push h hnew (helement.attrs attr hattr)

end UtilityClasses
