import UtilityClasses.Proofs.Scan.Accounts
import UtilityClasses.Scan.Code

/-!
# Tags, elements and code account for their errors

Tags, elements and code account for their errors if the constructs inside them do.
-/

namespace UtilityClasses.Scan

open Text (Slice)

variable {source : List Char} {s : State} {context : Context}

/-- The constructs inside others account for their errors wherever they are scanned. Where there is
no element, the scan has not moved. -/
structure Nested.Accounts (source : List Char) (nested : Nested) : Prop where
  code (s : State) (stops : List Char) : Points source s (nested.code stops)
  element (s : State) : Scan.Accounts source s nested.element fun found t => found = false → t = s
  region (s : State) (stops : List Char) : Points source s (nested.region stops)
  expression (s : State) : Points source s nested.expression.run
  operand (s : State) : Points source s nested.operand.run

variable (h : context.nested.Accounts source)
include h

theorem points_braced (hhead : s.rest.head? = some '\x7b') :
  Points source s (braced context)
  := by
  refine .of_at fun hat => ?_
  have hopened : Opened source .openContainer s.pos (s.after 1) :=
    hat.openedBy List.mem_cons_self hhead
  rw [braced]
  refine accounts_position (accounts_skip ((h.code _ _).bind fun found t _ hle _ => .ite ?_ ?_))
  · exact fun _ => points_skip
  · exact fun _ => accounts_fail (fun hat' => hopened.follow hat' hle) (by simp)

/-! ### Values -/

omit h in
theorem points_quotedValue {quote : Quote} {delimiter : Char} {name : String}
    (hdelimiter : delimiter = '"' ∨ delimiter = '\'') (hhead : s.rest.head? = some delimiter) :
  Points source s (quotedValue quote delimiter name)
  := by
  refine .of_at fun hat => ?_
  have hopened := hat.openedBy (mem_openers_of_quote hdelimiter name).2 hhead
  rw [quotedValue]
  refine accounts_position (accounts_skip (accounts_takeWhile (accounts_rest (.ite ?_ ?_))))
  · intro _
    exact accounts_fail (fun hat' => hopened.follow hat' (State.pos_le_after _ _)) (by simp)
  · exact fun _ => accounts_skip (accounts_spanFrom (.pure trivial))

omit h in
theorem points_unquotedValue {name : String}
    (hmissing : (SourceError.mk (.missingValue name) ⟨s.pos, s.pos⟩).Stands source) :
  Points source s (unquotedValue name)
  := by
  rw [unquotedValue]
  refine accounts_position (accounts_rest (accounts_take (.ite ?_ ?_)))
  · intro hempty
    have hpos : (s.after (bareValue s.rest)).pos = s.pos := by
      rw [State.after, List.isEmpty_iff.mp hempty]
      rfl
    refine .refused rfl fun _ => ?_
    rw [hpos]
    exact hmissing
  · exact fun _ => accounts_spanFrom (.pure trivial)

theorem points_container (hhead : s.rest.head? = some '\x7b') :
  Points source s (container context)
  := by
  refine .of_at fun hat => ?_
  have hopened : Opened source .openContainer s.pos (s.after 1) :=
    hat.openedBy List.mem_cons_self hhead
  rw [container]
  refine accounts_position (accounts_skip ((h.region _ _).bind fun node t _ hle _ =>
    accounts_rest (.ite ?_ ?_)))
  · exact fun _ => accounts_skip (accounts_spanFrom (.pure trivial))
  · exact fun _ => accounts_fail (fun hat' => hopened.follow hat' hle) (by simp)

theorem points_attributeValue {name : String}
    (hmissing : (SourceError.mk (.missingValue name) ⟨s.pos, s.pos⟩).Stands source) :
  Points source s (attributeValue context name)
  := by
  rw [attributeValue]
  refine accounts_position (accounts_rest ?_)
  dsimp only
  split
  · next hhead => exact (points_quotedValue (.inl rfl) hhead).bind fun _ _ _ _ _ => .pure trivial
  split
  · next hhead => exact (points_quotedValue (.inr rfl) hhead).bind fun _ _ _ _ _ => .pure trivial
  split
  · next hhead =>
    simp only [Bool.and_eq_true, decide_eq_true_eq] at hhead
    exact (points_container h hhead.1).bind fun _ _ _ _ _ => .pure trivial
  split
  · refine (h.element s).bind fun found t _ _ hfound => .ite ?_ ?_
    · exact fun _ => .pure trivial
    · intro hnone
      obtain rfl := hfound (by simpa using hnone)
      exact .refused rfl fun _ => hmissing
  split
  · exact (points_unquotedValue hmissing).bind fun _ _ _ _ _ => .pure trivial
  · exact .refused rfl fun _ => hmissing

/-! ### Attributes -/

theorem points_attributeTail {name : String} {start : Nat} :
  Points source s (attributeTail context name start)
  := by
  rw [attributeTail]
  refine accounts_spanFrom (accounts_get ?_)
  by_cases hvalue : (s.after (s.rest.takeWhile isSpacing).length).rest.head? = some '='
  · refine accounts_skipSpacing (accounts_rest ?_)
    rw [if_pos hvalue]
    refine .of_at fun hat => accounts_skip (accounts_skipSpacing ?_)
    refine (points_attributeValue h (stands_missingValue hat hvalue name)).bind fun _ _ _ _ _ => ?_
    exact accounts_spanFrom (.pure trivial)
  · -- The scan goes back to the end of the name.
    refine .of_eq (t := s) (y := pure ⟨name, ⟨start, s.pos⟩, none, ⟨start, s.pos⟩⟩) ?_ id
      (Nat.le_refl _) (.pure trivial)
    rw [skipSpacing, discard_bind, bind_apply, takeWhile_apply]
    simp only [bind_apply, rest_apply, ite_apply, if_neg hvalue]
    rfl

theorem points_attribute? :
  Points source s (attribute? context)
  := by
  rw [attribute?]
  refine accounts_position (accounts_takeWhile ?_)
  dsimp only
  split
  · exact accounts_skip (.pure trivial)
  · exact (points_attributeTail h).bind fun _ _ _ _ _ => .pure trivial

/-! ### Tags -/

omit h in
theorem points_betweenAttributes {dialect : Dialect} :
  Points source s (betweenAttributes dialect)
  := .ite (fun _ => points_skipSpacing) fun _ => points_skipTrivia

/-- A tag that does not close itself ends where the scan stands then. -/
theorem accounts_tagTail {name : String} {start : Nat} (budget : Nat)
    (attributes : List Attribute) (hopened : Opened source (.openTag name) start s) :
  Accounts source s (tagTail context name start budget attributes) fun result t =>
    result.1 = false → ∃ inside, Slice source ⟨start, t.pos⟩ ('<' :: name.toList ++ inside ++ ['>'])
  := by
  induction budget generalizing s attributes with
  | zero => exact accounts_exhaust
  | succ budget ih =>
    rw [tagTail]
    refine points_betweenAttributes.bind fun _ t hat hle _ => accounts_rest ?_
    have hopened := hopened.follow hat hle
    split
    · exact accounts_fail (fun _ => hopened) (by simp)
    · next later hrest =>
      refine accounts_skip (.pure fun _ => ?_)
      obtain ⟨opener, hopener, inside, hslice⟩ := hopened
      obtain rfl := List.mem_singleton.mp hopener
      have hend : Slice source ⟨t.pos, (t.after 1).pos⟩ ['>'] := hat.slice_after hrest
      exact ⟨inside, hslice.append hend⟩
    · exact accounts_skip (.pure nofun)
    · next c later _ _ hrest =>
      refine .ite ?_ ?_
      · intro hbrace
        simp only [Bool.and_eq_true, decide_eq_true_eq] at hbrace
        obtain ⟨rfl, -⟩ := hbrace
        have hhead : t.rest.head? = some '\x7b' := by rw [hrest, List.head?_cons]
        exact (points_braced h hhead).bind fun _ _ hu hle _ => ih _ (hopened.follow hu hle)
      · exact fun _ => (points_attribute? h).bind fun _ _ hu hle _ => ih _ (hopened.follow hu hle)

theorem accounts_tag {name : String} {start : Nat}
    (hopened : Opened source (.openTag name) start s) :
  Accounts source s (tag context name start) fun selfClosing t => selfClosing = false →
    ∃ inside, Slice source ⟨start, t.pos⟩ ('<' :: name.toList ++ inside ++ ['>'])
  := by
  rw [tag]
  refine (accounts_tagTail h _ _ hopened).bind fun result t _ _ htail => ?_
  exact accounts_spanFrom (accounts_record (.pure htail))

/-! ### Elements -/

/-- Where there is no opening tag, the scan has not moved, and one that does not close itself stands
in the source. -/
theorem accounts_openTag? :
  Accounts source s (openTag? context) fun found t => (found = none → t = s) ∧
    ∀ tag ∈ found, tag.selfClosing = false →
      (SourceError.mk (.openElement tag.name) tag.span).Stands source
  := by
  rw [openTag?]
  refine .of_at fun hat => accounts_position (accounts_rest ?_)
  split
  · next later hrest =>
    refine accounts_skip (accounts_spanFrom (.pure ⟨nofun, ?_⟩))
    rintro _ ⟨⟩ -
    have htag : Slice source ⟨s.pos, (s.after 2).pos⟩ (['<'] ++ [] ++ ['>']) :=
      hat.slice_after hrest
    exact stands_openElement htag
  · next c later _ hrest =>
    refine .ite ?_ fun _ => .pure ⟨fun _ => rfl, nofun⟩
    intro _
    refine accounts_get ?_
    let name := (s.after 1).rest.takeWhile isTagNameChar
    by_cases hparameters : opensTypeParameters ((s.after 1).after name.length).rest = true
    · -- The scan goes back to the `<`.
      refine .of_eq (t := s) (y := pure none) ?_ id (Nat.le_refl _) (.pure ⟨fun _ => rfl, nofun⟩)
      simp only [bind_apply, skip_apply, takeWhile_apply, rest_apply, ite_apply, name]
        at hparameters ⊢
      rw [if_pos hparameters]
      rfl
    · have hopened := hat.openedTag (by rw [hrest, List.head?_cons])
      refine accounts_skip (accounts_takeWhile (accounts_rest ?_))
      rw [if_neg hparameters]
      refine (accounts_tag h hopened).bind fun selfClosing t _ _ htail => accounts_spanFrom ?_
      refine .pure ⟨nofun, ?_⟩
      rintro _ ⟨⟩ hclosing
      obtain ⟨inside, hslice⟩ := htail hclosing
      exact stands_openElement hslice
  · exact .pure ⟨fun _ => rfl, nofun⟩

omit h in
/-- Text ends where a tag or a brace opens. -/
theorem eq_of_text {c : Char} {later : List Char}
    (hrest : (s.after (s.rest.takeWhile isTextChar).length).rest = c :: later) :
  c = '<' ∨ c = '\x7b'
  := by
  rw [State.after_rest, drop_length_takeWhile] at hrest
  have hne : s.rest.dropWhile isTextChar ≠ [] := by simp [hrest]
  have hhead := List.head_dropWhile_not isTextChar hne
  simp only [hrest, List.head_cons, isTextChar, Bool.and_eq_false_iff, decide_eq_false_iff_not,
    not_not] at hhead
  exact hhead

theorem points_content {outer : OpenTag} (budget inner : Nat)
    (hstands : (SourceError.mk (.openElement outer.name) outer.span).Stands source) :
  Points source s (content context outer budget inner)
  := by
  induction budget generalizing s inner with
  | zero => exact accounts_exhaust
  | succ budget ih =>
    rw [content.eq_def]
    dsimp only
    rw [discard_bind]
    refine accounts_takeWhile (accounts_rest ?_)
    split
    · exact .refused rfl fun _ => hstands
    · refine accounts_skip (points_skipPast.bind fun found _ _ _ _ => .ite ?_ ?_)
      · intro _
        split
        · exact .pure trivial
        · exact ih _
      · exact fun _ => .refused rfl fun _ => hstands
    · refine (accounts_openTag? h).bind fun found _ _ _ _ => ?_
      cases found with
      | some tag => exact ih _
      | none => exact accounts_skip (ih _)
    · next hempty _ htag =>
      refine (points_braced h ?_).bind fun _ _ _ _ _ => ih _
      obtain ⟨c, later, hrest⟩ := List.exists_cons_of_ne_nil hempty
      obtain rfl | rfl := eq_of_text hrest
      · exact absurd hrest (htag later)
      · rw [hrest, List.head?_cons]

theorem accounts_element :
  Accounts source s (element context) fun found t => found = false → t = s
  := by
  rw [element]
  refine (accounts_openTag? h).bind fun found t _ _ hfound => ?_
  cases found with
  | some tag =>
    refine .ite ?_ ?_
    · exact fun _ => .pure nofun
    · intro hclosing
      have hstands := hfound.2 tag rfl (by simpa using hclosing)
      exact (points_content h _ _ hstands).bind fun _ _ _ _ _ => .pure nofun
  | none => exact .pure fun _ => hfound.1 rfl

/-! ### Code -/

theorem points_templateTail {start : Nat} (budget : Nat)
    (hopened : Opened source .openTemplate start s) :
  Points source s (templateTail context start budget)
  := by
  induction budget generalizing s with
  | zero => exact accounts_exhaust
  | succ budget ih =>
    rw [templateTail]
    refine accounts_rest (accounts_skip (accounts_rest (.of_at fun hat => ?_)))
    have hopened := hopened.follow hat (State.pos_le_after _ _)
    split
    · exact points_skip
    · exact accounts_fail (fun _ => hopened) (by simp)
    · refine accounts_skip (.of_at fun hat' => ?_)
      have hopened := hopened.follow hat' (State.pos_le_after _ _)
      refine (h.code _ _).bind fun found t ht hle _ => .ite ?_ ?_
      · intro _
        refine accounts_skip (.of_at fun hat'' => ih (hopened.follow hat'' ?_))
        exact Nat.le_trans hle (State.pos_le_after _ _)
      · exact fun _ => accounts_fail (fun _ => hopened.follow ht hle) (by simp)

theorem points_skipTemplate (hhead : s.rest.head? = some '\x60') :
  Points source s (skipTemplate context)
  := by
  refine .of_at fun hat => ?_
  have hopened : Opened source .openTemplate s.pos (s.after 1) :=
    hat.openedBy List.mem_cons_self hhead
  exact accounts_position (accounts_skip (points_templateTail h _ hopened))

omit h in
theorem points_operator {place : Place} :
  Points source s (operator place)
  := accounts_skip (.pure trivial)

omit h in
theorem points_slash {place : Place} :
  Points source s (slash place)
  := by
  refine .ite (fun _ => ?_) fun _ => points_operator
  exact points_skipRegex.bind fun _ _ _ _ _ => .ite (fun _ => .pure trivial) fun _ =>
    points_operator

theorem points_angle {place : Place} :
  Points source s (angle context place)
  := by
  refine .ite (fun _ => ?_) fun _ => points_operator
  exact (accounts_element h).bind fun _ _ _ _ _ => .ite (fun _ => .pure trivial) fun _ =>
    points_operator

theorem points_lexeme {place : Place} {c : Char} (hhead : s.rest.head? = some c) :
  Points source s (lexeme context place c)
  := by
  rw [lexeme]
  split
  · next hquote =>
    rw [discard_bind]
    refine (points_stringLiteral ?_ hhead).bind fun _ _ _ _ _ => .pure trivial
    simpa using hquote
  split
  · next hquote =>
    subst hquote
    exact (points_skipTemplate h hhead).bind fun _ _ _ _ _ => .pure trivial
  split
  · exact points_slash
  split
  · exact points_angle h
  split
  · exact accounts_skip (.pure trivial)
  split
  · exact accounts_skip (.pure trivial)
  split
  · exact accounts_takeWhile (.pure trivial)
  split
  · rw [discard_bind]
    exact accounts_takeWhile (.pure trivial)
  · exact points_operator

theorem points_code {stops : List Char} :
  Points source s (code context stops)
  := by
  have hfrom (budget : Nat) (s : State) (place : Place) :
      Points source s (codeFrom context stops budget place) := by
    induction budget generalizing s place with
    | zero => exact accounts_exhaust
    | succ budget ih =>
      rw [codeFrom]
      refine points_skipTrivia.bind fun _ t _ _ _ => accounts_rest ?_
      split
      · exact .pure trivial
      · next c later hrest =>
        have hhead : t.rest.head? = some c := by rw [hrest, List.head?_cons]
        refine .ite (fun _ => .pure trivial) fun _ => ?_
        exact (points_lexeme h hhead).bind fun _ _ _ _ _ => ih _ _
  exact hfrom _ _ _

end UtilityClasses.Scan
