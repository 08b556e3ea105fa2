import UtilityClasses.Proofs.Scan.Moves

/-!
# Tags as moves

The scan of a tag is made of moves if the scans of the constructs inside it are.
-/

namespace UtilityClasses.Scan

variable {context : Context} {s s' : State}

theorem braced_steps (hnested : context.nested.Traced) {u : Unit}
    (h : Runs (braced context) s u s') (stack : List Loose) :
  Steps (s, stack) (s', stack)
  := by
  simp only [braced, runs_bind, runs_position, runs_skip, and_assoc, exists_and_left,
    exists_eq_left, exists_const] at h
  obtain ⟨found, t, hcode, h⟩ := h
  split at h
  · obtain rfl := runs_skip.mp h
    apply (Steps.pass s stack 1).trans
    apply (hnested.code hcode stack).trans
    apply Steps.pass
  · simp at h

/-! ### Values -/

theorem quotedValue_steps {quote : Quote} {delimiter : Char} {name : String}
    {value : Literal} (hquote : quote.char? = some delimiter)
    (hopening : s.rest.head? = some delimiter)
    (h : Runs (quotedValue quote delimiter name) s value s') (stack : List Loose) :
  Steps (s, stack) (s', .value (.literal value) :: stack)
  := by
  simp only [quotedValue, runs_bind, runs_position, runs_skip, runs_takeWhile, runs_rest,
    and_assoc, exists_and_left, exists_eq_left, exists_const] at h
  split at h
  · simp at h
  · next hrest =>
    simp only [runs_bind, runs_skip, runs_spanFrom, runs_pure, and_assoc, exists_and_left,
      exists_eq_left, exists_const, State.after_after] at h
    obtain ⟨rfl, rfl⟩ := h
    obtain ⟨text, htext⟩ := List.head?_eq_some_iff.mp hopening
    simp only [State.after_rest, htext, List.drop_succ_cons, List.drop_zero,
      drop_length_takeWhile] at hrest ⊢
    obtain ⟨c, later, hsplit, hc⟩ := exists_takeWhile_append (mt List.isEmpty_iff.mpr hrest)
    obtain rfl : c = delimiter := by simpa using hc
    apply Relation.ReflTransGen.single
    apply Move.quoted stack hquote
    · rw [htext, ← hsplit]
    · rw [Nat.add_comm 1, Nat.add_assoc]
    · intro hmem
      simpa using List.mem_takeWhile_imp hmem

/-- A value without quotes has no blank and no end of a tag in it. -/
theorem of_mem_bareValue {text : List Char} :
  ∀ c ∈ text.take (bareValue text), isSpacing c = false ∧ c ≠ '>'
  := by
  induction text with
  | nil => simp
  | cons d text ih =>
    rw [bareValue.eq_def]
    split
    · simp
    · next heq =>
      obtain ⟨rfl, rfl⟩ := List.cons.inj heq
      split
      · simp
      · next hplain =>
        rw [List.take_succ_cons, List.forall_mem_cons]
        apply And.intro _ ih
        simpa using hplain
    · next heq => simp at heq

theorem unquotedValue_steps {name : String} {value : Literal}
    (h : Runs (unquotedValue name) s value s') (stack : List Loose) :
  Steps (s, stack) (s', .value (.literal value) :: stack)
  := by
  simp only [unquotedValue, runs_bind, runs_position, runs_rest, runs_take, and_assoc,
    exists_and_left, exists_eq_left] at h
  split at h
  · simp at h
  · next hempty =>
    simp only [runs_bind, runs_spanFrom, runs_pure, and_assoc, exists_and_left,
      exists_eq_left] at h
    obtain ⟨rfl, rfl⟩ := h
    apply Relation.ReflTransGen.single
    apply Move.bare stack (List.take_append_drop (bareValue s.rest) s.rest).symm
    · rw [State.after_length_take]
    · simpa using hempty
    · apply of_mem_bareValue

theorem container_steps (hnested : context.nested.Traced) {value : AttrValue}
    (hopening : s.rest.head? = some '\x7b')
    (h : Runs (container context) s value s') (stack : List Loose) :
  Steps (s, stack) (s', .value value :: stack)
  := by
  simp only [container, runs_bind, runs_position, runs_skip, runs_rest, and_assoc,
    exists_and_left, exists_eq_left, exists_const] at h
  obtain ⟨root, t, hregion, h⟩ := h
  split at h
  · next hclosing =>
    simp only [runs_bind, runs_skip, runs_spanFrom, runs_pure, and_assoc, exists_and_left,
      exists_eq_left, exists_const] at h
    obtain ⟨rfl, rfl⟩ := h
    have hreads := hnested.region hregion
    apply Relation.ReflTransGen.head (.mark s stack)
    apply Relation.ReflTransGen.head (.pass s _ 1)
    apply (hreads.steps _).tail
    apply Move.container stack root hopening hreads.holds.starts hreads.literal hclosing rfl
  · simp at h

theorem attributeValue_steps (hnested : context.nested.Traced) {name : String}
    {value : Option AttrValue} (h : Runs (attributeValue context name) s value s')
    (stack : List Loose) :
  Steps (s, stack) (s', value.toList.map .value ++ stack)
  := by
  simp only [attributeValue, runs_bind, runs_position, runs_rest, and_assoc, exists_and_left,
    exists_eq_left] at h
  split_ifs at h with hdouble hsingle hbrace _ helement
  · simp only [runs_bind, runs_pure] at h
    obtain ⟨text, _, hvalue, rfl, rfl⟩ := h
    apply quotedValue_steps rfl hdouble hvalue
  · simp only [runs_bind, runs_pure] at h
    obtain ⟨text, _, hvalue, rfl, rfl⟩ := h
    apply quotedValue_steps rfl hsingle hvalue
  · simp only [runs_bind, runs_pure] at h
    obtain ⟨value, _, hvalue, rfl, rfl⟩ := h
    simp only [Bool.and_eq_true, decide_eq_true_eq] at hbrace
    apply container_steps hnested hbrace.1 hvalue
  · simp only [runs_bind] at h
    obtain ⟨found, t, helement, h⟩ := h
    split at h
    · obtain ⟨rfl, rfl⟩ := runs_pure.mp h
      apply hnested.element helement
    · simp at h
  · simp only [runs_bind, runs_pure] at h
    obtain ⟨text, _, hvalue, rfl, rfl⟩ := h
    apply unquotedValue_steps hvalue
  · simp at h

/-! ### Attributes -/

theorem attributeTail_steps (hnested : context.nested.Traced) {name : List Char} {start : Nat}
    {attr : Attribute} (h : Runs (attributeTail context (String.ofList name) start) s attr s')
    (stack : List Loose) :
  Steps (s, .name name ⟨start, s.pos⟩ :: stack) (s', .attr attr :: stack)
  := by
  simp only [attributeTail, runs_bind, runs_spanFrom, runs_get, runs_skipSpacing, runs_rest,
    and_assoc, exists_and_left, exists_eq_left, exists_const] at h
  split at h
  · simp only [runs_bind, runs_skip, runs_skipSpacing, runs_spanFrom, runs_pure, and_assoc,
      exists_and_left, exists_eq_left, exists_const] at h
    obtain ⟨value, t, hvalue, rfl, rfl⟩ := h
    have hsteps := attributeValue_steps hnested hvalue (.name name ⟨start, s.pos⟩ :: stack)
    apply Relation.ReflTransGen.head (.pass s _ _)
    apply Relation.ReflTransGen.head (.pass _ _ _)
    apply Relation.ReflTransGen.head (.pass _ _ _)
    apply hsteps.tail
    cases value with
    | none => apply Move.withoutValue _ stack name _ (.inr rfl)
    | some value => apply Move.withValue
  · simp only [runs_bind, runs_set, runs_pure, exists_eq_left, exists_const] at h
    obtain ⟨rfl, rfl⟩ := h
    apply Relation.ReflTransGen.single
    apply Move.withoutValue _ stack name _ (.inl rfl)

theorem attribute?_steps (hnested : context.nested.Traced) {attr : Option Attribute}
    (h : Runs (attribute? context) s attr s') (stack : List Loose) :
  Steps (s, stack) (s', attr.toList.map .attr ++ stack)
  := by
  simp only [attribute?, runs_bind, runs_position, runs_takeWhile, and_assoc,
    exists_and_left, exists_eq_left] at h
  split at h
  · simp only [runs_bind, runs_skip, runs_pure, exists_eq_left, exists_const] at h
    obtain ⟨rfl, rfl⟩ := h
    apply Relation.ReflTransGen.head (.pass s _ _)
    apply Steps.pass
  · simp only [runs_bind, runs_pure] at h
    obtain ⟨attr, _, hattr, rfl, rfl⟩ := h
    have hname := Move.name stack (List.takeWhile_append_dropWhile (p := isAttributeNameChar)
      (l := s.rest)).symm rfl
    apply Relation.ReflTransGen.head hname
    apply attributeTail_steps hnested hattr

/-! ### Tags -/

theorem betweenAttributes_steps {dialect : Dialect} {u : Unit}
    (h : Runs (betweenAttributes dialect) s u s') (stack : List Loose) :
  Steps (s, stack) (s', stack)
  := by
  rw [betweenAttributes] at h
  split at h
  · obtain rfl := runs_skipSpacing.mp h
    apply Steps.pass
  · obtain ⟨_, _, rfl⟩ := runs_skipTrivia.mp h
    apply Steps.pass

/-- The attributes of a tag lie on the stack when its end has been found. -/
theorem tagTail_steps (hnested : context.nested.Traced) {name : String} {start budget : Nat}
    {attributes attributes' : List Attribute} {selfClosing : Bool}
    (h : Runs (tagTail context name start budget attributes) s (selfClosing, attributes') s')
    (stack : List Loose) :
  ∃ t ending,
    Steps (s, attributes.reverse.map .attr ++ stack)
      (t, attributes'.reverse.map .attr ++ stack) ∧
    ending <+: t.rest ∧ (ending = ['>'] ∨ ending = ['/', '>']) ∧ s' = t.after ending.length
  := by
  induction budget generalizing s attributes with
  | zero => simp [tagTail] at h
  | succ budget ih =>
    simp only [tagTail, runs_bind, runs_rest, and_assoc, exists_and_left, exists_eq_left] at h
    obtain ⟨_, t, hbetween, h⟩ := h
    have hsteps := betweenAttributes_steps hbetween (attributes.reverse.map .attr ++ stack)
    split at h
    · simp at h
    · next later hrest =>
      simp only [runs_bind, runs_skip, runs_pure, exists_eq_left, exists_const,
        Prod.mk.injEq] at h
      obtain ⟨⟨rfl, rfl⟩, rfl⟩ := h
      refine ⟨t, ['>'], hsteps, ?_, .inl rfl, rfl⟩
      simp [hrest]
    · next later hrest =>
      simp only [runs_bind, runs_skip, runs_pure, exists_eq_left, exists_const,
        Prod.mk.injEq] at h
      obtain ⟨⟨rfl, rfl⟩, rfl⟩ := h
      refine ⟨t, ['/', '>'], hsteps, ?_, .inr rfl, rfl⟩
      simp [hrest]
    · split at h
      · simp only [runs_bind] at h
        obtain ⟨_, t', hbraced, h⟩ := h
        obtain ⟨r, ending, hr, hending⟩ := ih h
        refine ⟨r, ending, (hsteps.trans (braced_steps hnested hbraced _)).trans hr, hending⟩
      · simp only [runs_bind] at h
        obtain ⟨attr, t', hattr, h⟩ := h
        obtain ⟨r, ending, hr, hending⟩ := ih h
        refine ⟨r, ending, (hsteps.trans (attribute?_steps hnested hattr _)).trans ?_, hending⟩
        cases attr with
        | none => simpa using hr
        | some attr => simpa using hr

/-- A tag is recorded as an element. -/
theorem tag_steps (hnested : context.nested.Traced) {name : List Char} {start : Nat}
    {selfClosing : Bool} (h : Runs (tag context (String.ofList name) start) s selfClosing s')
    (stack : List Loose) :
  Steps (s, .tag name ⟨start, s.pos⟩ :: stack) (s', stack)
  := by
  simp only [tag, runs_bind, runs_spanFrom, runs_record, runs_pure, and_assoc,
    exists_and_left, exists_eq_left, exists_const] at h
  obtain ⟨⟨closing, attributes⟩, t, htail, rfl, rfl⟩ := h
  obtain ⟨r, ending, hsteps, hending, hclosing, rfl⟩ :=
    tagTail_steps hnested htail (.tag name ⟨start, s.pos⟩ :: stack)
  apply hsteps.tail
  apply Move.element stack name ⟨start, s.pos⟩ attributes hending hclosing rfl

end UtilityClasses.Scan
