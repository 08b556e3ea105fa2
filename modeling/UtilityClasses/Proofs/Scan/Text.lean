import UtilityClasses.Literal.Spelling
import UtilityClasses.Proofs.Scan.Invariant
import UtilityClasses.Proofs.Text.Slice

/-!
# What is found stands in the text

The scan stands at a character of the text, and a literal or a container that has been found
is the text at its span.
-/

namespace UtilityClasses

open Text (Slice)

/-! ### Expressions, values and elements -/

/-- The inside of a template from an offset on, up to the end of one of its holes: texts and
holes in turns. Around the expression in a hole there are only blanks and comments, and a text
ends where the next hole opens. -/
inductive Interleaved (start : Nat) : List Char → List String → List Span → Prop
  | none : Interleaved start [] [] []
  | hole {passed body first inside last : List Char} {texts : List String} {holes : List Span}
      {span : Span} (before : Interleaved start passed texts holes)
      (hbody : Scan.templateText body = body.length) (hfirst : Scan.IsTrivia first)
      (hlast : Scan.IsTrivia last)
      (hstart : span.start =
        start + Text.byteSize (passed ++ (body ++ '$' :: '\x7b' :: first)))
      (hstop : span.stop = span.start + Text.byteSize inside) :
      Interleaved start
        (passed ++ ((body ++ '$' :: '\x7b' :: first) ++ (inside ++ (last ++ ['\x7d']))))
        (texts ++ [String.ofList (Literal.decode body)]) (holes ++ [span])

/-- A string, a template, an identifier or an expression in parentheses is what stands in the
text, as far as its first character tells of the latter. -/
def Expr.Faithful (source : List Char) (arena : Arena) (expr : Expr) : Prop :=
  match expr.shape with
  | .str quote value => ∃ delimiter body, quote.char? = some delimiter ∧
      value = String.ofList (Literal.decode body) ∧
      Slice source expr.span (delimiter :: body ++ [delimiter])
  | .template texts holes => ∃ passed body before spans,
      Slice source expr.span ('\x60' :: (passed ++ body) ++ ['\x60']) ∧
      Interleaved (expr.span.start + 1) passed before spans ∧
      Scan.templateText body = body.length ∧
      texts = before ++ [String.ofList (Literal.decode body)] ∧
      holes.map arena.span? = spans.map some
  | .ident name => Slice source expr.span name.toList
  | .paren _ => ∃ inside, Slice source expr.span ('(' :: inside)
  | _ => True

/-- A literal value is what stands in the text: quotes around a text in which there is no such
quote, or a text that is not empty and has no blank and no end of a tag in it. -/
def Literal.Faithful (source : List Char) (text : Literal) : Prop :=
  match text.quote.char? with
  | some delimiter => delimiter ∉ text.value.toList ∧
      Slice source text.span (delimiter :: text.value.toList ++ [delimiter])
  | none => text.value.toList ≠ [] ∧
      (∀ c ∈ text.value.toList, Scan.isSpacing c = false ∧ c ≠ '>') ∧
      Slice source text.span text.value.toList

/-- A literal value is written as it stands in the text. -/
theorem Literal.Faithful.slice {source : List Char} {text : Literal} (h : text.Faithful source) :
  Slice source text.span (Literal.inAttribute text.quote text.value).toList
  := by
  rw [Literal.Faithful] at h
  rw [Literal.inAttribute]
  cases hquote : text.quote.char? with
  | some delimiter =>
    simp only [hquote, String.toList_ofList] at h ⊢
    apply h.2
  | none =>
    simp only [hquote] at h ⊢
    apply h.2.2

/-- The root of a container starts right after the brace, or else a blank or a comment does. -/
def AttrValue.Faithful (source : List Char) (arena : Arena) : AttrValue → Prop
  | .literal text => text.Faithful source
  | .container span id => ∃ inside root, Slice source span ('\x7b' :: inside) ∧
      arena.span? id = some root ∧ (root.start = span.start + 1 ∨
        ∃ c ∈ inside.head?, Scan.isSpacing c = true ∨ c = '/')

/-- The name of an attribute and its value are what stands in the text. -/
structure Attribute.Faithful (source : List Char) (arena : Arena) (attr : Attribute) : Prop where
  name : Slice source attr.nameSpan attr.name.toList
  value : ∀ value ∈ attr.value, value.Faithful source arena

/-- An element starts with its name and ends with the end of its tag. -/
structure Element.Faithful (source : List Char) (arena : Arena) (element : Element) : Prop where
  tag : ∃ inside, Slice source element.span ('<' :: element.name.toList ++ inside ++ ['>'])
  attr : ∀ attr ∈ element.attributes, attr.Faithful source arena

section Push

variable {source : List Char} {arena : Arena}

/-- The spans of expressions that are there stay when an expression is stored. -/
theorem Arena.map_span?_push {ids : List ExprId} {spans : List Span}
    (h : ids.map arena.span? = spans.map some) (new : Expr) :
  ids.map (Arena.span? (arena.push new)) = spans.map some
  := by
  rw [← h]
  apply List.map_congr_left
  intro id hid
  have hmem := List.mem_map_of_mem (f := arena.span?) hid
  rw [h] at hmem
  obtain ⟨span, -, hspan⟩ := List.mem_map.mp hmem
  rw [← hspan, arena.span?_push new hspan.symm]

theorem Expr.Faithful.push {expr : Expr} (h : expr.Faithful source arena) (new : Expr) :
  expr.Faithful source (arena.push new)
  := by
  obtain ⟨shape, span⟩ := expr
  cases shape with
  | template texts holes =>
    obtain ⟨passed, body, before, spans, hslice, hpassed, hbody, htexts, hspans⟩ := h
    use passed, body, before, spans, hslice, hpassed, hbody, htexts
    apply Arena.map_span?_push hspans
  | _ => apply h

theorem AttrValue.Faithful.push {value : AttrValue} (h : value.Faithful source arena)
    (expr : Expr) :
  value.Faithful source (arena.push expr)
  := by
  cases value with
  | literal text => apply h
  | container span id =>
    obtain ⟨inside, root, hslice, hroot, hstart⟩ := h
    use inside, root, hslice, arena.span?_push expr hroot

theorem Attribute.Faithful.push {attr : Attribute} (h : attr.Faithful source arena)
    (expr : Expr) :
  attr.Faithful source (arena.push expr)
  where
  name := h.name
  value value hvalue := (h.value value hvalue).push expr

theorem Element.Faithful.push {element : Element} (h : element.Faithful source arena)
    (expr : Expr) :
  element.Faithful source (arena.push expr)
  where
  tag := h.tag
  attr attr hattr := (h.attr attr hattr).push expr

end Push

namespace Scan

variable {c c' : State × List Loose} {source : List Char} {s s' opening : State}
  {stack : List Loose}

/-! ### Where a scan stands -/

/-- The rest of a source lies ahead, from a character on. -/
def State.At (source : List Char) (state : State) : Prop :=
  ∃ passed, source = passed ++ state.rest ∧ state.pos = Text.byteSize passed

theorem State.At.after (h : s.At source) (count : Nat) :
  (s.after count).At source
  := by
  obtain ⟨passed, hsource, hpos⟩ := h
  use passed ++ s.rest.take count
  constructor
  · rw [State.after_rest, List.append_assoc, List.take_append_drop, hsource]
  · rw [Text.byteSize_append, ← hpos]
    rfl

/-- What lies between two places of a scan stands in the text. -/
theorem State.At.slice (h : opening.At source) (h' : s.At source) {inside : List Char}
    (hrest : opening.rest = inside ++ s.rest) :
  Slice source ⟨opening.pos, s.pos⟩ inside
  := by
  obtain ⟨passed, hsource, hpos⟩ := h
  obtain ⟨passed', hsource', hpos'⟩ := h'
  have hpassed : passed ++ inside = passed' := by
    rw [hsource, hrest, ← List.append_assoc, List.append_cancel_right_eq] at hsource'
    apply hsource'
  refine ⟨passed, s.rest, ?_, hpos, ?_⟩
  · rw [hpassed, hsource']
  · rw [hpos', ← hpassed, Text.byteSize_append, hpos]

/-- What lies ahead of two places of a scan ends in the same way. -/
theorem State.At.exists_rest_eq (h : opening.At source) (h' : s.At source)
    (hle : opening.pos ≤ s.pos) :
  ∃ inside, opening.rest = inside ++ s.rest
  := by
  obtain ⟨passed, hsource, hpos⟩ := h
  obtain ⟨passed', hsource', hpos'⟩ := h'
  obtain ⟨inside, -, hrest⟩ :=
    Text.exists_append_of_byteSize_le (hsource.symm.trans hsource') (by omega)
  use inside, hrest

/-- The text that is passed by going forward. -/
theorem State.At.slice_after (h : s.At source) {inside later : List Char}
    (hrest : s.rest = inside ++ later) :
  Slice source ⟨s.pos, (s.after inside.length).pos⟩ inside
  := by
  apply h.slice (h.after inside.length)
  simp [hrest]

/-- A construct with its first and its last character. -/
theorem State.At.slice_enclosed (h : opening.At source) (h' : s.At source) {c d : Char}
    (hopening : opening.rest.head? = some c) (hclosing : d :: s.rest <:+ opening.rest.tail) :
  ∃ inside, Slice source ⟨opening.pos, s.pos⟩ (c :: inside)
  := by
  obtain ⟨text, htext⟩ := List.head?_eq_some_iff.mp hopening
  obtain ⟨inside, hinside⟩ := hclosing
  use inside ++ [d]
  apply h.slice h'
  rw [htext, List.tail_cons] at hinside
  simp [htext, ← hinside]

/-- What stands in the text before the place where the scan stands can be continued to there. -/
theorem State.At.exists_slice (h : s.At source) {span : Span} {inside : List Char}
    (hslice : Slice source span inside) (hle : span.stop ≤ s.pos) :
  ∃ more, Slice source ⟨span.start, s.pos⟩ (inside ++ more)
  := by
  obtain ⟨passed, hsource, hpos⟩ := h
  obtain ⟨before, after, hsplit, hstart, hstop⟩ := hslice
  obtain ⟨more, hmore, -⟩ := Text.exists_append_of_byteSize_le (hsplit.symm.trans hsource) (by
    rw [Text.byteSize_append]
    omega)
  refine ⟨more, before, s.rest, ?_, hstart, ?_⟩
  · rw [hsource, hmore, List.append_assoc before]
  · rw [hpos, hmore, List.append_assoc, Text.byteSize_append, hstart]

/-- A tag that starts with a name and ends where the scan is about to stand. -/
theorem State.At.exists_tag (h : s.At source) {span : Span} {name ending : List Char}
    (hslice : Slice source span ('<' :: name)) (hle : span.stop ≤ s.pos)
    (hending : ending <+: s.rest) (hclosing : ending = ['>'] ∨ ending = ['/', '>']) :
  ∃ inside, Slice source ⟨span.start, (s.after ending.length).pos⟩
    ('<' :: name ++ inside ++ ['>'])
  := by
  obtain ⟨more, hmore⟩ := h.exists_slice hslice hle
  obtain ⟨later, hlater⟩ := hending
  have htag := hmore.append (h.slice_after hlater.symm)
  obtain rfl | rfl := hclosing
  · exact ⟨more, htag⟩
  · use more ++ ['/']
    simpa using htag

/-! ### The invariant -/

/-- What is loose stands in the text. -/
def Loose.Faithful (source : List Char) (arena : Arena) : Loose → Prop
  | mark opening => opening.At source
  | tag chars span => Slice source span ('<' :: chars)
  | name chars span => Slice source span chars
  | value v => v.Faithful source arena
  | attr a => a.Faithful source arena
  | text _ _ | node _ => True

theorem Loose.Faithful.push {arena : Arena} {item : Loose} (h : item.Faithful source arena)
    (expr : Expr) :
  item.Faithful source (arena.push expr)
  := by
  cases item with
  | mark | text | node | tag | name => apply h
  | value v => apply AttrValue.Faithful.push h
  | attr a => apply Attribute.Faithful.push h

/-- The scan stands at a character, and what has been found stands in the text. -/
structure Faithful (source : List Char) (c : State × List Loose) : Prop where
  here : c.1.At source
  loose : ∀ item ∈ c.2, item.Faithful source c.1.arena
  expr : ∀ expr ∈ c.1.arena, expr.Faithful source c.1.arena
  element : ∀ element ∈ c.1.elements, element.Faithful source c.1.arena

/-- Going forward finds nothing. -/
theorem Faithful.after (h : Faithful source (s, stack)) (count : Nat) :
  Faithful source (s.after count, stack)
  where
  here := h.here.after count
  loose := h.loose
  expr := h.expr
  element := h.element

/-- What stands in the text can take the place of what is on top of the stack. -/
theorem Faithful.put {item : Loose} (items : List Loose)
    (h : Faithful source (s, items ++ stack)) (hitem : item.Faithful source s.arena) :
  Faithful source (s, item :: stack)
  where
  here := h.here
  loose := by
    rw [List.forall_mem_cons]
    apply And.intro hitem
    intro item' hmem
    apply h.loose item' (List.mem_append_right items hmem)
  expr := h.expr
  element := h.element

/-- The texts and the holes on the stack lie in the text in turns. -/
theorem Holes.exists_interleaved {start : Nat} {passed : List Char} {items : List Loose}
    {texts : List String} {holes : List ExprId} {arena : Arena}
    (h : Holes start passed items texts holes) (hitems : ∀ item ∈ items, item.WellFormed arena) :
  ∃ spans, Interleaved start passed texts spans ∧ holes.map arena.span? = spans.map some
  := by
  induction h with
  | none => exact ⟨[], .none, rfl⟩
  | @more _ _ _ _ _ _ _ _ node _ hbody hfirst hlast hstart hstop ih =>
    simp only [List.forall_mem_cons] at hitems
    obtain ⟨hnode, -, hitems⟩ := hitems
    obtain ⟨spans, hspans, hholes⟩ := ih hitems
    have hnode : arena.span? node.id = some node.span := hnode
    refine ⟨spans ++ [node.span], .hole hspans hbody hfirst hlast hstart hstop, ?_⟩
    simp [hholes, hnode]

/-- An expression that has just been read stands in the text. -/
theorem Faithful.forms {items : List Loose} {shape : ExprShape} {span : Span}
    (h : Faithful source (s, items ++ stack)) (hformed : Formed (s, items ++ stack))
    (hforms : Forms s items shape span) :
  (Expr.mk shape span).Faithful source s.arena
  := by
  have hmark : ∀ {opening}, Loose.mark opening ∈ items → opening.At source :=
    fun hmem => h.loose _ (List.mem_append_left stack hmem)
  cases hforms with
  | @string opening quote delimiter body hquote htext =>
    refine ⟨delimiter, body, hquote, rfl, ?_⟩
    apply (hmark (by simp)).slice h.here
    simp [htext]
  | @template opening passed body items texts holes htext hholes hbody =>
    have hitems : ∀ item ∈ items, item.WellFormed s.arena := by
      intro item hitem
      apply hformed.loose
      simp [hitem]
    obtain ⟨spans, hspans, hids⟩ := hholes.exists_interleaved hitems
    refine ⟨passed, body, texts, spans, ?_, hspans, hbody, rfl, hids⟩
    apply (hmark (by simp)).slice h.here
    simp [htext]
  | ident htext =>
    simp only [Expr.Faithful, String.toList_ofList]
    apply (hmark (by simp)).slice h.here htext
  | paren _ hopening hclosing =>
    apply (hmark (by simp)).slice_enclosed h.here hopening hclosing
  | _ => trivial

/-- A container that has just been read stands in the text. -/
theorem Faithful.container {root : Node}
    (h : Faithful source (s, .node root :: .mark opening :: stack))
    (hopening : opening.rest.head? = some '\x7b') (hstarts : (opening.after 1).Starts root)
    (hroot : s.arena.span? root.id = some root.span)
    (hlt : root.span.start < s'.pos) (here : s'.At source) :
  (AttrValue.container ⟨opening.pos, s'.pos⟩ root.id).Faithful source s.arena
  := by
  have hat : opening.At source := h.loose (.mark opening) (by simp)
  obtain ⟨text, htext⟩ := List.head?_eq_some_iff.mp hopening
  have hpos : (opening.after 1).pos = opening.pos + 1 := by
    simp [State.after, htext, Text.byteSize, Char.utf8Size]
  have hle := hstarts.le
  obtain ⟨inside, hinside⟩ := (hat.after 1).exists_rest_eq here (by omega)
  rw [State.after_rest, htext, List.drop_succ_cons, List.drop_zero] at hinside
  obtain ⟨gap, later, hgap, hstart, htrivia⟩ := hstarts
  have hslice : Slice source ⟨opening.pos, s'.pos⟩ ('\x7b' :: inside) := by
    apply hat.slice here
    rw [htext, hinside, List.cons_append]
  refine ⟨inside, root.span, hslice, hroot, ?_⟩
  cases gap with
  | nil =>
    left
    rw [hstart, hpos]
    rfl
  | cons c gap =>
    right
    use c
    constructor
    · cases inside with
      | nil =>
        obtain ⟨_, _, -, -, hstop⟩ := hslice
        simp [Text.byteSize, Char.utf8Size] at hstop
        omega
      | cons d inside =>
        simp only [State.after_rest, htext, List.drop_succ_cons, List.drop_zero, hinside,
          List.cons_append, List.cons.injEq] at hgap
        simp [hgap.1]
    · apply htrivia.head
      simp

/-- Every move keeps what has been found faithful to the text. -/
theorem Move.faithful (hmove : Move c c') (hformed : Formed c) (h : Faithful source c) :
  Faithful source c'
  := by
  have hloose := h.loose
  cases hmove with
  | pass s stack count => apply h.after
  | mark s stack =>
    apply h.put []
    apply h.here
  | text =>
    refine (h.put [] ?_).after _
    trivial
  | tag stack htext hafter | name stack htext hafter =>
    subst hafter
    refine (h.put [] ?_).after _
    apply h.here.slice_after htext
  | @quoted s _ stack quote delimiter value later hquote htext hafter hvalue =>
    subst hafter
    have hrest : s.rest = (delimiter :: value ++ [delimiter]) ++ later := by simp [htext]
    have hslice := h.here.slice_after hrest
    refine (h.put [] ?_).after _
    simpa [Loose.Faithful, AttrValue.Faithful, Literal.Faithful, hquote, hvalue] using hslice
  | @bare s _ stack value later htext hafter hne hvalue =>
    subst hafter
    have hslice := h.here.slice_after htext
    refine (h.put [] ?_).after _
    simp only [Loose.Faithful, AttrValue.Faithful, Literal.Faithful, Quote.char?,
      String.toList_ofList]
    exact ⟨hne, hvalue, hslice⟩
  | @node s stack items shape span hforms =>
    constructor
    · apply h.here
    · rw [List.forall_mem_cons]
      apply And.intro trivial
      intro item hitem
      apply (hloose item (List.mem_append_right items hitem)).push
    · intro expr hexpr
      obtain hold | rfl := Array.mem_push.mp hexpr
      · apply (h.expr expr hold).push
      · apply (h.forms hformed hforms).push
    · intro element helement
      apply (h.element element helement).push
  | @container s _ opening stack root hopening hstarts _ hclosing hafter =>
    subst hafter
    have hroot : s.arena.span? root.id = some root.span := hformed.loose (.node root) (by simp)
    obtain ⟨hspan, hstop⟩ := hformed.ordered.top
    have hlt : root.span.start < (s.after 1).pos :=
      Nat.lt_of_le_of_lt (Nat.le_trans hspan hstop) (State.pos_lt_after hclosing Nat.one_pos)
    refine (h.put [.node root, .mark opening] ?_).after 1
    apply h.container hopening hstarts hroot hlt (h.here.after 1)
  | withValue s stack value name span =>
    simp only [List.forall_mem_cons] at hloose
    obtain ⟨hvalue, hname, -⟩ := hloose
    apply h.put [.value value, .name name span]
    constructor
    · rw [String.toList_ofList]
      apply hname
    · rintro _ ⟨⟩
      apply hvalue
  | withoutValue s stack name span hstop =>
    simp only [List.forall_mem_cons] at hloose
    obtain ⟨hname, -⟩ := hloose
    apply h.put [.name name span]
    constructor
    · rw [String.toList_ofList]
      apply hname
    · rintro _ ⟨⟩
  | @element s _ stack name span attributes ending hending hclosing hafter =>
    subst hafter
    have hitems := hformed.ordered
    rw [List.append_cons] at hitems
    obtain ⟨middle, -, hitems⟩ := (ordered_append _).mp hitems
    obtain ⟨-, -, hrow⟩ := row_attributes hitems
    simp only [List.forall_mem_append, List.forall_mem_cons] at hloose
    obtain ⟨hattributes, htag, hstack⟩ := hloose
    constructor
    · apply h.here.after
    · apply hstack
    · apply h.expr
    · intro element helement
      obtain hold | rfl := Array.mem_push.mp helement
      · apply h.element element hold
      · constructor
        · rw [String.toList_ofList]
          apply h.here.exists_tag htag hrow.le hending hclosing
        · intro attr hattr
          apply hattributes (.attr attr)
          simpa using hattr

theorem Steps.faithful (hsteps : Steps c c') (hformed : Formed c) (h : Faithful source c) :
  Faithful source c'
  := by
  apply (hsteps.induct (P := fun d => Formed d ∧ Faithful source d) _ ⟨hformed, h⟩).2
  rintro d d' hmove ⟨hformed, h⟩
  apply And.intro (hmove.formed hformed) (hmove.faithful hformed h)

end Scan

end UtilityClasses
