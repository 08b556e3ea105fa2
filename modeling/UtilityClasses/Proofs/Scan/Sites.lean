import UtilityClasses.Proofs.Scan.Invariant
import UtilityClasses.Proofs.Tree.Sites

/-!
# Sites lie apart

The sites of all elements and of what is loose lie apart from one another at every moment of
a scan. A site comes up when a literal or a container has been read, and then everything else
ends before it starts.
-/

namespace UtilityClasses.Scan

variable {c c' : State × List Loose} {s : State} {items stack : List Loose} {arena : Arena}
  {shape : ExprShape} {span site : Span}

/-- The spans that a replacement may have in a loose item. -/
def Loose.sites (arena : Arena) : Loose → List Span
  | mark _ | text _ _ | tag _ _ | name _ _ => []
  | node n => arena.leaves n.id
  | value v => v.sites arena
  | attr a => a.sites arena

theorem Loose.sites_within (h : arena.WellFormed) {item : Loose} (hitem : item.WellFormed arena)
    (hsite : site ∈ item.sites arena) :
  item.span.start ≤ site.start ∧ site.stop ≤ item.span.stop
  := by
  cases item with
  | mark | text | tag | name => simp [sites] at hsite
  | node n => apply Arena.leaves_within_span h hitem hsite
  | value v => apply AttrValue.sites_within h hitem hsite
  | attr a => apply Attribute.sites_within h hitem hsite

theorem Loose.sites_push (h : arena.WellFormed) {new : Expr}
    (hnew : Arena.WellFormed (arena.push new)) {item : Loose} (hitem : item.WellFormed arena) :
  item.sites (arena.push new) = item.sites arena
  := by
  cases item with
  | mark | text | tag | name => rfl
  | node n => apply Arena.leaves_push h hnew (Arena.lt_size_of_span? hitem)
  | value v => apply AttrValue.sites_push h hnew hitem
  | attr a => apply Attribute.sites_push h hnew hitem

/-- The sites of the elements that have been found. -/
def State.sites (state : State) : List Span :=
  state.elements.toList.flatMap (Element.sites state.arena)

/-- All sites of elements and of what is loose. -/
def sites (c : State × List Loose) : List Span :=
  c.1.sites ++ c.2.flatMap (Loose.sites c.1.arena)

/-- Sites lie apart, and no element that was there when a construct was opened reaches into
the construct. -/
structure Sited (c : State × List Loose) : Prop where
  apart : (sites c).Pairwise Span.Apart
  marks {opening : State} (h : .mark opening ∈ c.2) :
    ∀ element ∈ opening.elements, element.span.stop ≤ opening.pos

/-! ### Where sites lie -/

/-- The sites of elements that end before an offset. -/
theorem stop_le_of_mem_sites (h : s.arena.WellFormed)
    (hformed : ∀ element ∈ s.elements, element.WellFormed s.arena) {bound : Nat}
    (hbefore : ∀ element ∈ s.elements, element.span.stop ≤ bound) (hsite : site ∈ s.sites) :
  site.stop ≤ bound
  := by
  obtain ⟨element, helement, hsite⟩ := List.mem_flatMap.mp hsite
  rw [Array.mem_toList_iff] at helement
  apply Nat.le_trans (Element.sites_within h (hformed element helement) hsite).2
  apply hbefore element helement

/-- The sites of items below an offset. -/
theorem stop_le_of_mem_stack (h : s.arena.WellFormed)
    (hloose : ∀ item ∈ stack, item.WellFormed s.arena) {bound : Nat}
    (hrow : Row 0 (stack.reverse.map Loose.span) bound)
    (hsite : site ∈ stack.flatMap (Loose.sites s.arena)) :
  site.stop ≤ bound
  := by
  obtain ⟨item, hitem, hsite⟩ := List.mem_flatMap.mp hsite
  apply Nat.le_trans (Loose.sites_within h (hloose item hitem) hsite).2
  have hmem := List.mem_map_of_mem (f := Loose.span) (List.mem_reverse.mpr hitem)
  apply (hrow.of_mem hmem).2.2

/-! ### How sites change -/

theorem Sited.after (h : Sited (s, stack)) (count : Nat) :
  Sited (s.after count, stack)
  where
  apart := h.apart
  marks := h.marks

/-- Moves that make no new site. -/
theorem Sited.of_subperm (h : Sited c) (hsub : (sites c').Subperm (sites c))
    (hmarks : ∀ opening, Loose.mark opening ∈ c'.2 → Loose.mark opening ∈ c.2) :
  Sited c'
  where
  apart := pairwise_apart_of_subperm h.apart hsub
  marks hmark := h.marks (hmarks _ hmark)

/-- Moves that make one new site behind all others. -/
theorem Sited.of_fresh (h : Sited c) {fresh : Span} {others : List Span}
    (hperm : (sites c').Perm (fresh :: others)) (hsub : others.Subperm (sites c))
    (hbefore : ∀ site ∈ others, site.stop ≤ fresh.start)
    (hmarks : ∀ opening, Loose.mark opening ∈ c'.2 → Loose.mark opening ∈ c.2) :
  Sited c'
  where
  apart := by
    apply hperm.symm.pairwise _ Span.Apart.symm
    apply List.Pairwise.cons
    · intro site hsite
      apply Or.inr (hbefore site hsite)
    · apply pairwise_apart_of_subperm h.apart hsub
  marks hmark := h.marks (hmarks _ hmark)

/-- The sites of the elements stay when an expression is stored. -/
theorem State.sites_push (h : s.arena.WellFormed)
    (hformed : ∀ element ∈ s.elements, element.WellFormed s.arena) {new : Expr}
    (hnew : Arena.WellFormed (s.arena.push new)) :
  State.sites { s with arena := s.arena.push new } = s.sites
  := by
  apply List.flatMap_congr
  intro element helement
  apply Element.sites_push h hnew (hformed element (Array.mem_toList_iff.mp helement))

/-- A literal is read between a mark and the place where the scan stands, and no element in
between. -/
theorem Forms.literal {now : State} (hforms : Forms now items shape span)
    (hliteral : shape.isLiteral = true) :
  ∃ above opening, items = above ++ [.mark opening] ∧ span.start = opening.pos ∧
    now.elements = opening.elements
  := by
  cases hforms with
  | @string opening _ _ _ _ _ helements => use [], opening, rfl, rfl, helements
  | @template opening passed body items _ holes _ _ _ helements =>
    cases holes with
    | nil =>
      use .text (opening.pos + 1 + Text.byteSize passed) body :: items, opening, rfl, rfl
      apply helements rfl
    | cons => simp [ExprShape.isLiteral] at hliteral
  | _ => simp [ExprShape.isLiteral] at hliteral

/-- All sites lie before the place where the scan stands. -/
theorem stop_le_pos (hformed : Formed c) (hnesting : Nesting c) :
  ∀ site ∈ sites c, site.stop ≤ c.1.pos
  := by
  intro site hsite
  obtain hsite | hsite := List.mem_append.mp hsite
  · apply stop_le_of_mem_sites hformed.arena hformed.element hnesting.before hsite
  · apply stop_le_of_mem_stack hformed.arena hformed.loose hformed.ordered hsite

/-- A literal value that has just been read is a new site. -/
theorem Sited.value {s' : State} {text : Literal} (h : Sited (s, stack))
    (hformed : Formed (s, stack)) (hnesting : Nesting (s, stack)) (harena : s'.arena = s.arena)
    (helements : s'.elements = s.elements) (hstart : text.span.start = s.pos) :
  Sited (s', .value (.literal text) :: stack)
  := by
  have hperm : (sites (s', .value (.literal text) :: stack)).Perm
      (text.span :: sites (s, stack)) := by
    simp only [sites, State.sites, harena, helements, List.flatMap_cons]
    apply List.perm_middle
  apply h.of_fresh hperm
  · apply List.Subperm.refl
  · rw [hstart]
    apply stop_le_pos hformed hnesting
  · simp

/-- The stack after an expression has been stored has the same sites, and those of the
expression. -/
theorem sites_node (hformed : Formed (s, items ++ stack)) {new : Expr}
    (hnew : Arena.WellFormed (s.arena.push new)) :
  sites ({ s with arena := s.arena.push new }, .node ⟨s.arena.size, new.span⟩ :: stack) =
    s.sites ++ (Arena.leaves (s.arena.push new) s.arena.size ++
      stack.flatMap (Loose.sites s.arena))
  := by
  have hstack : stack.flatMap (Loose.sites (s.arena.push new)) =
      stack.flatMap (Loose.sites s.arena) := by
    apply List.flatMap_congr
    intro item hitem
    apply Loose.sites_push hformed.arena hnew
    apply hformed.loose item (List.mem_append_right items hitem)
  rw [sites, State.sites_push hformed.arena hformed.element hnew, List.flatMap_cons, hstack]
  rfl

/-- The leaves of the children of an expression are sites of its parts. -/
theorem Formed.leaves_children (hformed : Formed (s, items ++ stack))
    (hforms : Forms s items shape span) :
  (shape.children.flatMap s.arena.leaves).Subperm (items.flatMap (Loose.sites s.arena))
  := by
  obtain ⟨middle, -, hitems⟩ := (ordered_append _).mp hformed.ordered
  obtain ⟨-, nodes, hids, hsub, -⟩ := hforms.children hitems
  have hnodes : shape.children.flatMap s.arena.leaves =
      (nodes.map Loose.node).flatMap (Loose.sites s.arena) := by
    rw [← hids, List.flatMap_map, List.flatMap_map]
    rfl
  rw [hnodes]
  apply (hsub.flatMap _).subperm.trans
  apply ((List.reverse_perm items).flatMap_right _).subperm

/-- What lies before a literal whose mark is on the stack. -/
theorem Sited.stop_le_mark {above : List Loose} {opening : State}
    (h : Sited (s, above ++ .mark opening :: stack))
    (hformed : Formed (s, above ++ .mark opening :: stack))
    (helements : s.elements = opening.elements) :
  ∀ site ∈ s.sites ++ stack.flatMap (Loose.sites s.arena), site.stop ≤ opening.pos
  := by
  intro site hsite
  obtain hsite | hsite := List.mem_append.mp hsite
  · apply stop_le_of_mem_sites hformed.arena hformed.element _ hsite
    rw [helements]
    apply h.marks
    simp
  · obtain ⟨_, hrow, -⟩ := (ordered_append above).mp hformed.ordered
    rw [List.reverse_cons, List.map_append] at hrow
    obtain ⟨_, hrow, hle, -⟩ := Row.append_iff.mp hrow
    apply stop_le_of_mem_stack hformed.arena _ (hrow.mono_stop hle) hsite
    intro item hitem
    apply hformed.loose
    simp [hitem]

/-- An expression that has just been stored has the sites of its parts, or, if it is a literal,
one new site. -/
theorem Sited.node (h : Sited (s, items ++ stack)) (hformed : Formed (s, items ++ stack))
    (hforms : Forms s items shape span)
    (hnew : Arena.WellFormed (s.arena.push ⟨shape, span⟩)) :
  Sited ({ s with arena := s.arena.push ⟨shape, span⟩ },
    .node ⟨s.arena.size, span⟩ :: stack)
  := by
  have hsites := sites_node hformed hnew
  have hself := Arena.leaves_eq hnew Array.getElem?_push_size
  have hmarks : ∀ opening, Loose.mark opening ∈ Loose.node ⟨s.arena.size, span⟩ :: stack →
      Loose.mark opening ∈ items ++ stack := by
    intro opening hmark
    simpa using Or.inr (by simpa using hmark)
  cases hliteral : shape.isLiteral with
  | true =>
    obtain ⟨above, opening, rfl, hstart, helements⟩ := hforms.literal hliteral
    simp only [hliteral, if_true, ExprShape.children_of_isLiteral hliteral, List.flatMap_nil,
      List.append_nil] at hself
    rw [hself] at hsites
    apply h.of_fresh (by rw [hsites]; apply List.perm_middle) _ _ hmarks
    · rw [sites, List.flatMap_append]
      apply ((List.Sublist.refl _).append (List.sublist_append_right _ _)).subperm
    · rw [hstart]
      rw [List.append_assoc] at h hformed
      apply h.stop_le_mark hformed helements
  | false =>
    have hchildren : shape.children.flatMap (Arena.leaves (s.arena.push ⟨shape, span⟩)) =
        shape.children.flatMap s.arena.leaves := by
      apply List.flatMap_congr
      intro child hchild
      apply Arena.leaves_push hformed.arena hnew
      apply hnew.earlier Array.getElem?_push_size child hchild
    simp only [hliteral, hchildren] at hself
    apply h.of_subperm _ hmarks
    rw [hsites, hself, sites, List.flatMap_append]
    apply List.Subperm.append (List.Subperm.refl _)
    apply (hformed.leaves_children hforms).append (List.Subperm.refl _)

/-- A container has the sites of its root, or, if it holds nothing but a template without
holes, one new site. -/
theorem Sited.container {root : Node} {opening : State} {stop : Nat}
    (h : Sited (s, .node root :: .mark opening :: stack))
    (hformed : Formed (s, .node root :: .mark opening :: stack))
    (hliteral : s.elements = opening.elements ∨ s.arena.WrapsOther root.id) :
  Sited (s, .value (.container ⟨opening.pos, stop⟩ root.id) :: stack)
  := by
  cases hstatic : (s.arena.core? root.id).any fun core => core.shape.isStatic with
  | true =>
    have helements : s.elements = opening.elements := by
      obtain helements | ⟨core, hcore, hother⟩ := hliteral
      · apply helements
      · simp only [Arena.core?_of_wraps hformed.arena hcore, Option.any_some] at hstatic
        simp [ExprShape.isLiteral_of_isStatic hstatic] at hother
    have hperm : (sites (s, .value (.container ⟨opening.pos, stop⟩ root.id) :: stack)).Perm
        (⟨opening.pos, stop⟩ :: (s.sites ++ stack.flatMap (Loose.sites s.arena))) := by
      simp only [sites, List.flatMap_cons, Loose.sites, AttrValue.sites, hstatic, if_true]
      apply List.perm_middle
    apply h.of_fresh hperm
    · simp only [sites, List.flatMap_cons, Loose.sites, List.nil_append]
      apply ((List.Sublist.refl _).append (List.sublist_append_right _ _)).subperm
    · have h' : Sited (s, [.node root] ++ .mark opening :: stack) := h
      apply h'.stop_le_mark hformed helements
    · simpa using fun _ => Or.inr
  | false =>
    apply h.of_subperm
    · simp only [sites, List.flatMap_cons, Loose.sites, AttrValue.sites, hstatic,
        List.nil_append]
      apply List.Subperm.refl
    · simpa using fun _ => Or.inr

/-- Every move keeps the sites apart. -/
theorem Move.sited (hmove : Move c c') (hformed : Formed c) (hnesting : Nesting c)
    (h : Sited c) :
  Sited c'
  := by
  have hformed' := hmove.formed hformed
  cases hmove with
  | pass => apply h.after
  | mark s stack =>
    constructor
    · apply h.apart
    · intro opening hmark element helement
      obtain heq | hmark := List.mem_cons.mp hmark
      · obtain rfl := Loose.mark.inj heq
        apply hnesting.before element helement
      · apply h.marks hmark element helement
  | text =>
    apply h.of_subperm
    · apply List.Subperm.refl
    · simp
  | tag _ _ hafter | name _ _ hafter =>
    subst hafter
    apply h.of_subperm
    · apply List.Subperm.refl
    · simp
  | quoted _ _ _ hafter | bare _ _ hafter =>
    subst hafter
    apply h.value hformed hnesting
    · rfl
    · rfl
    · rfl
  | withValue | withoutValue =>
    apply h.of_subperm
    · simpa [sites, Loose.sites, Attribute.sites] using List.Subperm.refl _
    · simp
  | node stack hforms => apply h.node hformed hforms hformed'.arena
  | @container s _ opening stack root hopening hstarts hliteral hclosing hafter =>
    subst hafter
    apply (h.container hformed hliteral).after
  | @element s _ stack name span attributes ending hending hclosing hafter =>
    subst hafter
    apply h.of_subperm
    · have hperm := (List.reverse_perm attributes).flatMap_right (Attribute.sites s.arena)
      simp only [sites, State.sites, Array.toList_push, List.flatMap_append, List.flatMap_cons,
        List.flatMap_nil, List.append_nil, List.flatMap_map, List.append_assoc]
      apply List.Subperm.append (List.Subperm.refl _)
      apply List.Subperm.append hperm.symm.subperm (List.Subperm.refl _)
    · simp

theorem Steps.sited (hsteps : Steps c c') (hformed : Formed c) (hnesting : Nesting c)
    (h : Sited c) :
  Sited c'
  := by
  apply (hsteps.induct (P := fun d => Formed d ∧ Nesting d ∧ Sited d) _ ⟨hformed, hnesting, h⟩).2.2
  rintro d d' hmove ⟨hformed, hnesting, h⟩
  refine ⟨hmove.formed hformed, hmove.nesting hformed hnesting, hmove.sited hformed hnesting h⟩

end UtilityClasses.Scan
