import Mathlib.Data.List.Flatten
import UtilityClasses.Proofs.Scan.Order
import UtilityClasses.Proofs.Tree.WellFormed

/-!
# Invariants of the moves

What has been found is well-formed at every moment of a scan, the elements are nested in one
another, and no expression is referred to twice. Each of the three is kept by every move.
-/

namespace UtilityClasses.Scan

variable {c c' : State × List Loose} {s : State} {stack : List Loose} {arena : Arena}

/-! ### What has been found is well-formed -/

/-- What is loose is well-formed: an expression stands where it is said to stand. -/
def Loose.WellFormed (arena : Arena) : Loose → Prop
  | mark _ | text _ _ | name _ _ => True
  | node n => arena.span? n.id = some n.span
  | tag _ span => span.start < span.stop
  | value v => v.WellFormed arena
  | attr a => a.WellFormed arena

theorem Loose.WellFormed.push {item : Loose} (h : item.WellFormed arena) (expr : Expr) :
  item.WellFormed (arena.push expr)
  := by
  cases item with
  | mark | text | name => trivial
  | node n => apply arena.span?_push expr h
  | tag => apply h
  | value v => apply AttrValue.WellFormed.push h
  | attr a => apply Attribute.WellFormed.push h

/-- What has been found and what is loose is well-formed and in order. -/
structure Formed (c : State × List Loose) : Prop where
  ordered : Ordered c
  arena : c.1.arena.WellFormed
  loose : ∀ item ∈ c.2, item.WellFormed c.1.arena
  element : ∀ element ∈ c.1.elements, element.WellFormed c.1.arena

/-- There is one text more than there are holes when the last text is added. -/
theorem Holes.length_eq {start : Nat} {passed : List Char} {items : List Loose}
    {texts : List String} {holes : List ExprId} (h : Holes start passed items texts holes) :
  texts.length = holes.length
  := by
  induction h with
  | none => rfl
  | more _ _ _ _ _ _ ih => simp [ih]

theorem Forms.length_texts {now : State} {items : List Loose} {shape : ExprShape} {span : Span}
    (h : Forms now items shape span) (texts : List String) (holes : List ExprId)
    (hshape : shape = .template texts holes) :
  texts.length = holes.length + 1
  := by
  cases h with
  | template _ hholes =>
    obtain ⟨rfl, rfl⟩ := ExprShape.template.inj hshape
    simp [hholes.length_eq]
  | _ => simp at hshape

/-- The expression that is stored encloses its children. -/
theorem Formed.encloses {items : List Loose} {shape : ExprShape} {span : Span}
    (h : Formed (s, items ++ stack)) (hforms : Forms s items shape span) :
  ∃ spans, (Expr.mk shape span).Encloses s.arena spans
  := by
  obtain ⟨middle, -, hitems⟩ := (ordered_append _).mp h.ordered
  obtain ⟨-, nodes, hids, hsub, hrow⟩ := hforms.children hitems
  use nodes.map Node.span
  constructor
  · rw [← hids, List.map_map, List.map_map]
    apply List.map_congr_left
    intro node hnode
    have hmem := hsub.subset (List.mem_map_of_mem hnode)
    apply h.loose (.node node)
    simp [List.mem_reverse.mp hmem]
  · apply hrow

/-- A construct that starts with a character starts before the end of that character. -/
theorem State.pos_lt_after {char : Char} {count : Nat} (h : s.rest.head? = some char)
    (hcount : 0 < count) :
  s.pos < (s.after count).pos
  := by
  obtain ⟨text, htext⟩ := List.head?_eq_some_iff.mp h
  obtain ⟨n, rfl⟩ := Nat.exists_eq_succ_of_ne_zero (Nat.ne_of_gt hcount)
  simp only [State.after, htext, List.take_succ_cons, Text.byteSize]
  have hsize := char.utf8Size_pos
  omega

/-- Moves that store nothing put one item in the place of those that it is made of. -/
theorem Ordered.put {item : Loose} {s' : State} (items : List Loose)
    (hordered : Ordered (s', item :: stack)) (h : Formed (s, items ++ stack))
    (harena : s'.arena = s.arena) (helements : s'.elements = s.elements)
    (hitem : item.WellFormed s.arena) :
  Formed (s', item :: stack)
  where
  ordered := hordered
  arena := by simpa only [harena] using h.arena
  loose := by
    rw [harena, List.forall_mem_cons]
    apply And.intro hitem
    intro item' hmem
    apply h.loose item' (List.mem_append_right items hmem)
  element := by simpa only [harena, helements] using h.element

/-- Every move keeps what has been found well-formed. -/
theorem Move.formed (hmove : Move c c') (h : Formed c) :
  Formed c'
  := by
  have hordered := hmove.ordered h.ordered
  have hloose := h.loose
  cases hmove with
  | pass => exact ⟨hordered, h.arena, hloose, h.element⟩
  | mark | text => apply hordered.put [] h rfl rfl trivial
  | name _ _ hafter | quoted _ _ _ hafter | bare _ _ hafter =>
    subst hafter
    apply hordered.put [] h rfl rfl trivial
  | @tag s _ stack name later htext hafter =>
    subst hafter
    have hopening : s.rest.head? = some '<' := by simp [htext]
    apply hordered.put [] h rfl rfl
    apply s.pos_lt_after hopening (Nat.succ_pos _)
  | @node s stack items shape span hforms =>
    obtain ⟨spans, hencloses⟩ := h.encloses hforms
    constructor
    · apply hordered
    · apply h.arena.push hencloses hforms.length_texts
    · rw [List.forall_mem_cons]
      constructor
      · apply s.arena.span?_push_size
      · intro item hitem
        apply (hloose item (List.mem_append_right items hitem)).push
    · intro element helement
      apply (h.element element helement).push
  | @container s _ opening stack root hopening hstarts _ hclosing hafter =>
    subst hafter
    have hroot : s.arena.span? root.id = some root.span := hloose (.node root) (by simp)
    obtain ⟨-, hstop⟩ := h.ordered.top
    apply hordered.put [.node root, .mark opening] h rfl rfl
    refine ⟨root.span, hroot, ?_, ?_⟩
    · apply Nat.lt_of_lt_of_le (State.pos_lt_after hopening Nat.one_pos) hstarts.le
    · apply Nat.lt_of_le_of_lt hstop (State.pos_lt_after hclosing Nat.one_pos)
  | withValue s stack value name span =>
    obtain ⟨middle, -, hrow⟩ :=
      (ordered_append [.value value, .name name span]).mp h.ordered
    apply hordered.put [.value value, .name name span] h rfl rfl
    refine ⟨⟨Nat.le_refl _, hrow.2⟩, ?_⟩
    rintro _ ⟨⟩
    apply hloose (.value value) List.mem_cons_self
  | withoutValue s stack name span hstop =>
    obtain ⟨hspan, hle⟩ := h.ordered.top
    apply hordered.put [.name name span] h rfl rfl
    refine ⟨⟨Nat.le_refl _, hspan, ?_⟩, ?_⟩
    · obtain rfl | rfl := hstop
      · apply Nat.le_refl
      · apply hle
    · rintro _ ⟨⟩
  | @element s _ stack name span attributes ending hending hclosing hafter =>
    subst hafter
    have hitems := h.ordered
    rw [List.append_cons] at hitems
    obtain ⟨middle, -, hitems⟩ := (ordered_append _).mp hitems
    obtain ⟨-, hspan, hrow⟩ := row_attributes hitems
    simp only [List.forall_mem_append, List.forall_mem_cons] at hloose
    obtain ⟨hattributes, htag, hstack⟩ := hloose
    have hle := s.pos_le_after ending.length
    constructor
    · apply hordered
    · apply h.arena
    · apply hstack
    · intro element helement
      obtain hold | rfl := Array.mem_push.mp helement
      · apply h.element element hold
      · constructor
        · exact Nat.lt_of_lt_of_le htag (Nat.le_trans hrow.le hle)
        · apply (hrow.mono_start hspan).mono_stop hle
        · intro attr hattr
          apply hattributes (.attr attr)
          simpa using hattr

theorem Steps.formed (hsteps : Steps c c') (h : Formed c) :
  Formed c'
  := hsteps.induct Move.formed h

/-! ### Elements are nested -/

/-- How an element stands to one that was found after it: it lies in front of it, or in it. -/
def Element.Precedes (element later : Element) : Prop :=
  element.span.stop ≤ later.span.start ∨
    (later.span.start < element.span.start ∧ element.span.stop ≤ later.span.stop)

/-- The elements that have been found are nested in one another, and no tag that is still open
starts inside one of them. -/
structure Nesting (c : State × List Loose) : Prop where
  before : ∀ element ∈ c.1.elements, element.span.stop ≤ c.1.pos
  pairwise : c.1.elements.toList.Pairwise Element.Precedes
  tags {name : List Char} {span : Span} (h : .tag name span ∈ c.2) :
    ∀ element ∈ c.1.elements, element.span.stop ≤ span.start ∨ span.stop ≤ element.span.start

/-- Moves that record no element and open no tag. -/
theorem Nesting.mono (h : Nesting c) (hle : c.1.pos ≤ c'.1.pos)
    (helements : c'.1.elements = c.1.elements)
    (htags : ∀ name span, Loose.tag name span ∈ c'.2 → Loose.tag name span ∈ c.2) :
  Nesting c'
  where
  before element helement := by
    rw [helements] at helement
    apply Nat.le_trans (h.before element helement) hle
  pairwise := by
    rw [helements]
    apply h.pairwise
  tags htag element helement := by
    rw [helements] at helement
    apply h.tags (htags _ _ htag) element helement

/-- Every move keeps the elements nested in one another. -/
theorem Move.nesting (hmove : Move c c') (hformed : Formed c) (h : Nesting c) :
  Nesting c'
  := by
  have hle := hmove.pos_le
  cases hmove with
  | pass => apply h.mono hle rfl fun _ _ => id
  | mark | text | withValue | withoutValue =>
    apply h.mono hle rfl
    simp
  | name _ _ hafter | quoted _ _ _ hafter | bare _ _ hafter | container _ _ _ _ _ _ hafter =>
    subst hafter
    apply h.mono hle rfl
    simp
  | node stack hforms =>
    apply h.mono hle rfl
    intro name span htag
    simpa using Or.inr htag
  | @tag s _ stack name later htext hafter =>
    subst hafter
    constructor
    · intro element helement
      apply Nat.le_trans (h.before element helement) hle
    · apply h.pairwise
    · intro name' span' htag element helement
      obtain heq | htag := List.mem_cons.mp htag
      · obtain ⟨-, rfl⟩ := Loose.tag.inj heq
        apply Or.inl (h.before element helement)
      · apply h.tags htag element helement
  | @element s _ stack name span attributes ending hending hclosing hafter =>
    subst hafter
    have hmem : Loose.tag name span ∈ attributes.reverse.map .attr ++ .tag name span :: stack :=
      List.mem_append_right _ List.mem_cons_self
    have hspan : span.start < span.stop := hformed.loose _ hmem
    obtain ⟨middle, hstack, -⟩ := (ordered_append _).mp hformed.ordered
    constructor
    · intro element helement
      obtain hold | rfl := Array.mem_push.mp helement
      · apply Nat.le_trans (h.before element hold) hle
      · apply Nat.le_refl
    · rw [Array.toList_push, List.pairwise_append]
      refine ⟨h.pairwise, List.pairwise_singleton _ _, ?_⟩
      intro element hold new hnew
      obtain rfl := List.mem_singleton.mp hnew
      rw [Array.mem_toList_iff] at hold
      obtain hbefore | hinside := h.tags hmem element hold
      · apply Or.inl hbefore
      · right
        use Nat.lt_of_lt_of_le hspan hinside, Nat.le_trans (h.before element hold) hle
    · intro name' span' htag element helement
      obtain hold | rfl := Array.mem_push.mp helement
      · apply h.tags (List.mem_append_right _ (List.mem_cons_of_mem _ htag)) element hold
      · apply Or.inr (stop_le_of_mem hstack htag)

theorem Steps.nesting (hsteps : Steps c c') (hformed : Formed c) (h : Nesting c) :
  Nesting c'
  := by
  apply (hsteps.induct (P := fun d => Formed d ∧ Nesting d) _ ⟨hformed, h⟩).2
  rintro d d' hmove ⟨hformed, h⟩
  apply And.intro (hmove.formed hformed) (hmove.nesting hformed h)

/-! ### Nothing is referred to twice -/

/-- The expressions that a loose item refers to. -/
def Loose.refs : Loose → List ExprId
  | mark _ | text _ _ | tag _ _ | name _ _ => []
  | node n => [n.id]
  | value v => v.refs
  | attr a => a.refs

/-- The expressions that are referred to by elements, by other expressions and by what is
loose. -/
def refs (c : State × List Loose) : List ExprId :=
  c.1.elements.toList.flatMap Element.refs ++ c.1.arena.refs ++ c.2.flatMap Loose.refs

/-- No expression is referred to twice, and none that is not there. -/
def Ledger (c : State × List Loose) : Prop :=
  ∀ id, (refs c).count id ≤ if id < c.1.arena.size then 1 else 0

/-- The children of an expression are referred to by its parts. -/
theorem Formed.count_children_le {items : List Loose} {shape : ExprShape} {span : Span}
    (h : Formed (s, items ++ stack)) (hforms : Forms s items shape span) (id : ExprId) :
  shape.children.count id ≤ (items.flatMap Loose.refs).count id
  := by
  obtain ⟨middle, -, hitems⟩ := (ordered_append _).mp h.ordered
  obtain ⟨-, nodes, hids, hsub, -⟩ := hforms.children hitems
  have hnodes : (nodes.map Loose.node).flatMap Loose.refs = nodes.map Node.id := by
    rw [List.flatMap_map, List.map_eq_flatMap]
    rfl
  calc
    shape.children.count id = ((nodes.map Loose.node).flatMap Loose.refs).count id := by
      rw [hnodes, hids]
    _ ≤ (items.reverse.flatMap Loose.refs).count id := (hsub.flatMap _).count_le id
    _ = (items.flatMap Loose.refs).count id :=
      ((List.reverse_perm items).flatMap_right _).count_eq id

/-- Every move keeps the ledger. -/
theorem Move.ledger (hmove : Move c c') (hformed : Formed c) (h : Ledger c) :
  Ledger c'
  := by
  intro id
  have hcount := h id
  cases hmove with
  | pass | mark | text => apply hcount
  | tag _ _ hafter | name _ _ hafter | quoted _ _ _ hafter | bare _ _ hafter
  | container _ _ _ _ _ _ hafter =>
    subst hafter
    apply hcount
  | withValue | withoutValue =>
    simpa [refs, Loose.refs, Attribute.refs] using hcount
  | @node s stack items shape span hforms =>
    have hchildren := hformed.count_children_le hforms id
    have hnew : Arena.refs (s.arena.push ⟨shape, span⟩) = s.arena.refs ++ shape.children := by
      simp [Arena.refs]
    simp only [refs, hnew, List.flatMap_append, List.flatMap_cons, List.count_append, Loose.refs,
      Array.size_push] at hcount ⊢
    obtain hlt | rfl | hgt := Nat.lt_trichotomy id s.arena.size
    · have hother : [s.arena.size].count id = 0 :=
        List.count_eq_zero_of_not_mem (by simpa using Nat.ne_of_lt hlt)
      rw [if_pos hlt] at hcount
      rw [if_pos (Nat.lt_succ_of_lt hlt)]
      omega
    · have hself : [s.arena.size].count s.arena.size = 1 := List.count_singleton_self
      rw [if_neg (Nat.lt_irrefl _)] at hcount
      rw [if_pos (Nat.lt_succ_self _)]
      omega
    · have hother : [s.arena.size].count id = 0 :=
        List.count_eq_zero_of_not_mem (by simpa using Nat.ne_of_gt hgt)
      rw [if_neg (Nat.not_lt_of_gt hgt)] at hcount
      omega
  | @element s _ stack name span attributes ending hending hclosing hafter =>
    subst hafter
    have hattributes : ((attributes.reverse.map Loose.attr).flatMap Loose.refs).count id =
        (attributes.flatMap Attribute.refs).count id := by
      rw [List.flatMap_map]
      apply ((List.reverse_perm attributes).flatMap_right _).count_eq
    apply Nat.le_trans _ hcount
    simp only [refs, Array.toList_push, List.flatMap_append, List.flatMap_cons, List.flatMap_nil,
      List.count_append, List.append_nil, hattributes, Element.refs, Loose.refs, List.count_nil,
      State.after_arena, State.after_elements]
    omega

theorem Steps.ledger (hsteps : Steps c c') (hformed : Formed c) (h : Ledger c) :
  Ledger c'
  := by
  apply (hsteps.induct (P := fun d => Formed d ∧ Ledger d) _ ⟨hformed, h⟩).2
  rintro d d' hmove ⟨hformed, h⟩
  apply And.intro (hmove.formed hformed) (hmove.ledger hformed h)

end UtilityClasses.Scan
