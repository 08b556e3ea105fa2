import UtilityClasses.Proofs.Scan.Moves
import UtilityClasses.Proofs.Tree.Row

/-!
# The order of the stack

What is loose lies in the order in which it was read: the items of the stack are a row of
spans that ends where the scan stands. So the children of every expression that is stored
are a row inside its span.
-/

namespace UtilityClasses.Scan

variable {c c' : State × List Loose} {now : State} {items stack : List Loose}
  {shape : ExprShape} {span : Span} {start : Nat}

/-- What is loose lies in order before the place where the scan stands. -/
def Ordered (c : State × List Loose) : Prop :=
  Row 0 (c.2.reverse.map Loose.span) c.1.pos

/-- The scan moves forward. -/
theorem State.pos_le_after (state : State) (count : Nat) :
  state.pos ≤ (state.after count).pos
  := Nat.le_add_right _ _

/-- The scan passes over some text. -/
theorem Move.exists_covers (hmove : Move c c') :
  ∃ text, c.1.Covers text c'.1
  := by
  cases hmove with
  | pass s => exact ⟨_, s.covers_take _⟩
  | mark | node | withValue | withoutValue => exact ⟨[], rfl, rfl⟩
  | @text s => exact ⟨_, s.covers_take _⟩
  | @tag s _ _ _ _ _ hafter | @name s _ _ _ _ _ hafter | @quoted s _ _ _ _ _ _ _ _ hafter
  | @bare s _ _ _ _ _ hafter | @container s _ _ _ _ _ _ _ _ hafter =>
    subst hafter
    exact ⟨_, s.covers_take _⟩
  | @element s _ _ _ _ _ ending _ _ hafter =>
    subst hafter
    obtain ⟨hrest, hpos⟩ := s.covers_take ending.length
    exact ⟨_, hrest, hpos⟩

theorem Move.pos_le (hmove : Move c c') :
  c.1.pos ≤ c'.1.pos
  := by
  obtain ⟨text, hcovers⟩ := hmove.exists_covers
  rw [hcovers.pos]
  apply Nat.le_add_right

theorem Steps.exists_covers (hsteps : Steps c c') :
  ∃ text, c.1.Covers text c'.1
  := by
  apply hsteps.induct (P := fun d => ∃ text, c.1.Covers text d.1)
  · rintro d d' hmove ⟨text, hcovers⟩
    obtain ⟨text', hcovers'⟩ := hmove.exists_covers
    exact ⟨text ++ text', hcovers.trans hcovers'⟩
  · exact ⟨[], State.Covers.refl _⟩

theorem Steps.pos_le (hsteps : Steps c c') :
  c.1.pos ≤ c'.1.pos
  := hsteps.induct (P := fun d => c.1.pos ≤ d.1.pos)
    (fun hmove h => Nat.le_trans h hmove.pos_le) (Nat.le_refl _)

/-- What lies ahead later on is the end of what lies ahead. -/
theorem Steps.suffix (hsteps : Steps c c') :
  c'.1.rest <:+ c.1.rest
  := by
  obtain ⟨text, hcovers⟩ := hsteps.exists_covers
  exact ⟨text, hcovers.rest.symm⟩

/-- The holes of a template are among the items. -/
theorem Holes.nodes {passed : List Char} {texts : List String} {holes : List ExprId}
    (h : Holes start passed items texts holes) :
  ∃ nodes : List Node, nodes.map Node.id = holes ∧
    (nodes.map Loose.node).Sublist items.reverse
  := by
  induction h with
  | none => use [], rfl, List.Sublist.refl _
  | @more _ _ _ _ _ _ _ _ node _ _ _ _ _ _ ih =>
    obtain ⟨nodes, hholes, hsub⟩ := ih
    use nodes ++ [node], by simp [hholes]
    simp only [List.map_append, List.map_cons, List.map_nil, List.reverse_cons,
      List.append_assoc]
    apply hsub.append
    simp

/-- Nodes among items that are in order are in order themselves. -/
theorem row_nodes {nodes : List Node} {stop : Nat}
    (hsub : (nodes.map Loose.node).Sublist items)
    (hrow : Row start (items.map Loose.span) stop) :
  Row start (nodes.map Node.span) stop
  := by
  have h := hrow.sublist (hsub.map Loose.span)
  rw [List.map_map] at h
  apply h

/-- The children of an expression are among its parts. If the parts are in order, so are the
children, inside the span of the expression. -/
theorem Forms.children (h : Forms now items shape span)
    (hrow : Row start (items.reverse.map Loose.span) now.pos) :
  (start ≤ span.start ∧ span.stop ≤ now.pos) ∧
    ∃ nodes : List Node, nodes.map Node.id = shape.children ∧
      (nodes.map Loose.node).Sublist items.reverse ∧
      Row span.start (nodes.map Node.span) span.stop
  := by
  cases h with
  | string _ _ _ | ident _ | verbatim =>
    obtain ⟨hstart, -, hstop⟩ := hrow
    use ⟨hstart, Nat.le_refl _⟩, [], rfl, List.nil_sublist _, hstop
  | @template opening passed body _ _ _ _ hholes =>
    obtain ⟨nodes, hnodes, hsub⟩ := hholes.nodes
    simp only [List.cons_append, List.reverse_cons, List.reverse_append, List.reverse_nil,
      List.nil_append, List.map_cons] at hrow ⊢
    obtain ⟨hstart, -, hrow⟩ := hrow
    use ⟨hstart, Nat.le_refl _⟩, nodes, hnodes
    have hsub' := hsub.trans (List.sublist_append_left _
      [.text (opening.pos + 1 + Text.byteSize passed) body])
    use hsub'.trans (List.sublist_cons_self _ _), row_nodes hsub' hrow
  | paren inner =>
    obtain ⟨hstart, -, hrow⟩ := hrow
    refine ⟨⟨hstart, Nat.le_refl _⟩, [inner], rfl, by simp, hrow⟩
  | array opening nodes =>
    simp only [List.reverse_append, List.map_reverse, List.reverse_reverse, List.reverse_cons,
      List.reverse_nil, List.nil_append, List.cons_append, List.map_cons] at hrow ⊢
    obtain ⟨hstart, -, hrow⟩ := hrow
    use ⟨hstart, Nat.le_refl _⟩, nodes, rfl, List.sublist_cons_self _ _
    apply row_nodes (List.Sublist.refl _) hrow
  | member object =>
    obtain ⟨hstart, hspan, hstop⟩ := hrow
    use ⟨hstart, Nat.le_refl _⟩, [object], rfl, by simp, Nat.le_refl _, hspan, hstop
  | call callee args =>
    simp only [List.reverse_append, List.map_reverse, List.reverse_reverse, List.reverse_cons,
      List.reverse_nil, List.nil_append, List.cons_append, List.map_cons] at hrow ⊢
    obtain ⟨hstart, hspan, hrow⟩ := hrow
    use ⟨hstart, Nat.le_refl _⟩, callee :: args, rfl, List.Sublist.refl _
    use Nat.le_refl _, hspan, row_nodes (List.Sublist.refl _) hrow
  | index object | asserted object =>
    have hle := hrow.le
    obtain ⟨hstart, hspan, hrow⟩ := hrow
    use ⟨hstart, Nat.le_refl _⟩, [], rfl, List.nil_sublist _, Nat.le_trans hspan hrow.le
  | spread opening inner =>
    obtain ⟨hstart, -, hinner, hspan, hstop⟩ := hrow
    use ⟨hstart, hstop⟩, [inner], rfl, by simp, hinner, hspan, Nat.le_refl _
  | unary opening inner =>
    obtain ⟨hstart, -, hinner, hspan, hstop⟩ := hrow
    use ⟨hstart, hstop⟩, [], rfl, List.nil_sublist _, Nat.le_trans hinner hspan
  | logical op left right =>
    obtain ⟨hstart, hleft, hmiddle, hright, hstop⟩ := hrow
    simp only [Loose.span] at *
    have hspan : left.span.merge right.span = ⟨left.span.start, right.span.stop⟩ := by
      simp only [Span.merge, Span.mk.injEq]
      omega
    rw [hspan]
    use ⟨hstart, hstop⟩, [left, right], rfl, by simp
    use Nat.le_refl _, hleft, hmiddle, hright, Nat.le_refl _
  | conditional test consequent alternate =>
    obtain ⟨hstart, htest, hfirst, hconsequent, hsecond, halternate, hstop⟩ := hrow
    simp only [Loose.span] at *
    have hspan : test.span.merge alternate.span = ⟨test.span.start, alternate.span.stop⟩ := by
      simp only [Span.merge, Span.mk.injEq]
      omega
    rw [hspan]
    use ⟨hstart, hstop⟩, [test, consequent, alternate], rfl, by simp
    use Nat.le_refl _, htest, hfirst, hconsequent, hsecond, halternate, Nat.le_refl _

/-- Items on top of a stack that is in order. -/
theorem ordered_append (items : List Loose) {s : State} :
  Ordered (s, items ++ stack) ↔
    ∃ middle, Row 0 (stack.reverse.map Loose.span) middle ∧
      Row middle (items.reverse.map Loose.span) s.pos
  := by
  rw [Ordered, List.reverse_append, List.map_append, Row.append_iff]

/-- An item in the place of other items. -/
theorem Ordered.push {s : State} {middle : Nat} {item : Loose}
    (hstack : Row 0 (stack.reverse.map Loose.span) middle)
    (hitem : middle ≤ item.span.start ∧ item.span.start ≤ item.span.stop ∧
      item.span.stop ≤ s.pos) :
  Ordered (s, item :: stack)
  := by
  apply (ordered_append [item]).mpr
  use middle, hstack
  apply Row.singleton_iff.mpr hitem

/-- The topmost item lies before the place where the scan stands. -/
theorem Ordered.top {s : State} {item : Loose} (h : Ordered (s, item :: stack)) :
  item.span.start ≤ item.span.stop ∧ item.span.stop ≤ s.pos
  := by
  obtain ⟨middle, -, hrow⟩ := (ordered_append [item]).mp h
  apply hrow.2

/-- What lies below an item ends before the item starts. -/
theorem stop_le_of_mem {item below : Loose} {stop : Nat}
    (h : Row start ((item :: stack).reverse.map Loose.span) stop) (hmem : below ∈ stack) :
  below.span.stop ≤ item.span.start
  := by
  rw [List.reverse_cons, List.map_append] at h
  obtain ⟨middle, hstack, hitem⟩ := Row.append_iff.mp h
  have hspan := List.mem_map_of_mem (f := Loose.span) (List.mem_reverse.mpr hmem)
  apply Nat.le_trans (hstack.of_mem hspan).2.2 hitem.1

/-- The parts of an element are its tag and its attributes. -/
theorem row_attributes {attributes : List Attribute} {name : List Char} {stop : Nat}
    (h : Row start ((attributes.reverse.map Loose.attr ++ [Loose.tag name span]).reverse.map
      Loose.span) stop) :
  start ≤ span.start ∧ span.start ≤ span.stop ∧ Row span.stop (attributes.map Attribute.span) stop
  := by
  have hspans : (attributes.map Loose.attr).map Loose.span = attributes.map Attribute.span := by
    simp [Loose.span]
  simpa [Row, hspans, Loose.span, Function.comp_def] using h

/-- Every move keeps what is loose in order. -/
theorem Move.ordered (hmove : Move c c') (h : Ordered c) :
  Ordered c'
  := by
  cases hmove with
  | pass s stack count => apply h.mono_stop (s.pos_le_after count)
  | mark s stack => apply Ordered.push h ⟨Nat.le_refl _, Nat.le_refl _, Nat.le_refl _⟩
  | text stack htext =>
    apply Ordered.push h
    simp [Loose.span, State.after, htext]
  | node stack hforms =>
    obtain ⟨middle, hstack, hitems⟩ := (ordered_append _).mp h
    obtain ⟨⟨hstart, hstop⟩, nodes, -, -, hrow⟩ := hforms.children hitems
    exact Ordered.push hstack ⟨hstart, hrow.le, hstop⟩
  | @tag s _ stack _ _ _ hafter | @name s _ stack _ _ _ hafter
  | @quoted s _ stack _ _ _ _ _ _ hafter | @bare s _ stack _ _ _ hafter =>
    subst hafter
    exact Ordered.push h ⟨Nat.le_refl _, s.pos_le_after _, Nat.le_refl _⟩
  | @container s _ opening stack root _ _ _ _ hafter =>
    subst hafter
    obtain ⟨middle, hstack, hstart, -, hrow⟩ :=
      (ordered_append [.node root, .mark opening]).mp h
    exact Ordered.push hstack ⟨hstart, Nat.le_trans hrow.le (s.pos_le_after 1), Nat.le_refl _⟩
  | withValue s stack value name span =>
    obtain ⟨middle, hstack, hstart, hspan, hrow⟩ :=
      (ordered_append [.value value, .name name span]).mp h
    exact Ordered.push hstack ⟨hstart, Nat.le_trans hspan hrow.le, Nat.le_refl _⟩
  | withoutValue s stack name span hstop =>
    obtain ⟨middle, hstack, hstart, hspan, hrow⟩ :=
      (ordered_append [.name name span]).mp h
    have hle : span.stop ≤ s.pos := hrow
    obtain rfl | rfl := hstop
    · exact Ordered.push hstack ⟨hstart, hspan, hle⟩
    · exact Ordered.push hstack ⟨hstart, Nat.le_trans hspan hle, Nat.le_refl _⟩
  | @element s _ stack name span attributes _ _ _ hafter =>
    subst hafter
    rw [List.append_cons] at h
    obtain ⟨middle, hstack, hitems⟩ := (ordered_append _).mp h
    obtain ⟨hstart, hspan, hrow⟩ := row_attributes hitems
    apply hstack.mono_stop
    calc
      middle ≤ span.stop := Nat.le_trans hstart hspan
      _ ≤ s.pos := hrow.le
      _ ≤ _ := s.pos_le_after _

theorem Steps.ordered (hsteps : Steps c c') (h : Ordered c) :
  Ordered c'
  := hsteps.induct Move.ordered h

theorem State.Starts.le {s : State} {node : Node} (h : s.Starts node) :
  s.pos ≤ node.span.start
  := by
  obtain ⟨gap, later, -, hstart, -⟩ := h
  rw [hstart]
  apply Nat.le_add_right

end UtilityClasses.Scan
