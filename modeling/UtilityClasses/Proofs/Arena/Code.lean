import UtilityClasses.Proofs.Arena.Credit
import UtilityClasses.Proofs.Cursor.Appends

/-!
# Paying for what is in tags and in code

Elements and code store expressions only through the constructs inside them. `Nested.Pays` says
what each of these costs: a region may cost the byte in front of it, and the `<` of an element is
left over.
-/

namespace UtilityClasses.Cursor

variable {α σ : Type} {source : List Char} {s t : State} {k : Nat} {mine theirs : Nested}
  {dialect : Dialect}

/-- The constructs inside others do the same in both ways to read them, and they cost no more than
has been passed. -/
structure Nested.Pays (source : List Char) (mine theirs : Nested) : Prop where
  code {s : State} {k : Nat} (h : s.Credit source k) (stops : List Char) :
    Same source s (mine.code stops) (theirs.code stops) fun _ t => t.Credit source k
  element {s : State} {k : Nat} (h : s.Credit source k) (hb : s.byteAt source 0 = byte '<') :
    Same source s mine.element theirs.element fun found t => t.Credit source (k + found.toNat)
  region {s : State} {k : Nat} (h : s.Credit source (k + 1)) (stops : List Char) :
    Same source s (mine.region stops) (theirs.region stops) fun _ t => t.Credit source k
  expression {s : State} {k : Nat} (h : s.Credit source k) :
    Same source s mine.expression.run theirs.expression.run (Tried fun _ t => t.Credit source k)
  operand {s : State} {k : Nat} (h : s.Credit source k) :
    Same source s mine.operand.run theirs.operand.run (Tried fun _ t => t.Credit source k)

variable (hnested : mine.Pays source theirs)
include hnested

/-! ### Tags -/

/-- The opening brace is left over. -/
theorem same_skipBraced (h : s.Credit source k) (hb : s.byteAt source 0 = byte '\x7b') :
  Same source s (skipBraced ⟨dialect, mine⟩) (skipBraced ⟨dialect, theirs⟩)
    fun _ t => t.Credit source (k + 1)
  := by
  rw [skipBraced, skipBraced, same_position]
  apply h.advance hb (by decide)
  intro t ht
  apply (hnested.code ht _).bind
  intro found u hu
  exact .ite (fun _ => passes_advance.ends hu) fun _ => .fail

/-- The opening brace pays for the region. -/
theorem same_container (h : s.Credit source k) (hb : s.byteAt source 0 = byte '\x7b') :
  Same source s (container ⟨dialect, mine⟩) (container ⟨dialect, theirs⟩)
    fun _ t => t.Credit source k
  := by
  rw [container, container, same_position]
  apply h.advance hb (by decide)
  intro t ht
  apply (hnested.region ht _).bind
  intro node u hu
  rw [same_current]
  refine .ite (fun _ => ?_) fun _ => .fail
  exact passes_advance.step hu fun _ _ hv => looks_spanFrom.step fun _ => .pure hv

theorem same_attributeValue (h : s.Credit source k) {name : String} :
  Same source s (attributeValue ⟨dialect, mine⟩ name) (attributeValue ⟨dialect, theirs⟩ name)
    fun _ t => t.Credit source k
  := by
  rw [attributeValue, attributeValue, same_position, same_current]
  refine .ite (fun _ => ?_) fun _ => .ite (fun _ => ?_) fun _ => .ite (fun hbrace => ?_) fun _ =>
    .ite (fun hangle => ?_) fun _ => .ite (fun _ => ?_) fun _ => .throw
  · exact passes_quotedValue.step h fun _ _ ht => .pure ht
  · exact passes_quotedValue.step h fun _ _ ht => .pure ht
  · simp only [Bool.and_eq_true, decide_eq_true_eq] at hbrace
    exact (same_container hnested h hbrace.1).bind fun _ _ ht => .pure ht
  · simp only [Bool.and_eq_true, decide_eq_true_eq] at hangle
    apply (hnested.element h hangle.1).bind
    intro found t ht
    exact .ite (fun _ => .pure (ht.mono (Nat.le_add_right _ _))) fun _ => .throw
  · exact passes_unquotedValue.step h fun _ _ ht => .pure ht

theorem same_attributeTail (h : s.Credit source k) {name : String} {start : Nat} :
  Same source s (attributeTail ⟨dialect, mine⟩ name start)
    (attributeTail ⟨dialect, theirs⟩ name start) fun _ t => t.Credit source k
  := by
  rw [attributeTail, attributeTail]
  refine looks_spanFrom.step fun _ => ?_
  rw [same_position]
  apply (passes_eatSpacing.endsAhead h.inside).bind
  intro _ t hahead
  rw [same_current]
  refine .ite (fun _ => ?_) fun _ => (h.back hahead).mono fun _ _ hu => hu.2
  have hle : s.pos + 0 ≤ t.pos := hahead.le
  refine passes_advance.step (hahead.credit h hle) fun _ _ hu => passes_eatSpacing.step hu
    fun _ _ hv => ?_
  exact (same_attributeValue hnested hv).bind fun _ _ hw => looks_spanFrom.step fun _ => .pure hw

theorem same_attribute? (h : s.Credit source k) :
  Same source s (attribute? ⟨dialect, mine⟩) (attribute? ⟨dialect, theirs⟩)
    fun _ t => t.Credit source k
  := by
  rw [attribute?, attribute?, same_position]
  apply passes_eatWhile.step h
  intro _ t ht
  rw [same_position]
  refine .ite (fun _ => passes_advanceChar.step ht fun _ _ hu => .pure hu) fun _ => ?_
  exact looks_sliceFrom.step fun _ => (same_attributeTail hnested ht).bind fun _ _ hu => .pure hu

theorem same_tagRound (h : s.Credit source k) {name : String} {start : Nat}
    {attributes : List Attribute} :
  Same source s (tagRound ⟨dialect, mine⟩ name start attributes)
    (tagRound ⟨dialect, theirs⟩ name start attributes)
    (Goes (fun _ t => t.Credit source k) fun _ t => t.Credit source k)
  := by
  rw [tagRound, tagRound]
  apply passes_eatSpacing.step h
  intro _ t ht
  rw [same_current]
  refine .ite (fun _ => passes_advance.step ht fun _ _ hu => .pure hu) fun _ => ?_
  rw [same_peek]
  refine .ite (fun _ => passes_advanceBy.step ht fun _ _ hu => .pure hu) fun _ =>
    .ite (fun hbrace => ?_) fun _ => ?_
  · simp only [Bool.and_eq_true, decide_eq_true_eq] at hbrace
    exact (same_skipBraced hnested ht hbrace.1).bind fun _ _ hu =>
      .pure (hu.mono (Nat.le_add_right _ _))
  refine looks_atEnd.step fun _ => .ite (fun _ => .fail) fun _ => ?_
  rw [same_peek, same_peek]
  refine .ite (fun _ => ?_) fun _ => ?_
  · exact passes_skipComment.discard.step ht fun _ _ hu => .pure hu
  · exact (same_attribute? hnested ht).bind fun _ _ hu => .pure hu

theorem same_tag (h : s.Credit source k) {name : String} {start : Nat} :
  Same source s (tag ⟨dialect, mine⟩ name start) (tag ⟨dialect, theirs⟩ name start)
    fun _ t => t.Credit source k
  := by
  have hrounds : Same source s (rounds (tagRound ⟨dialect, mine⟩ name start) [])
      (rounds (tagRound ⟨dialect, theirs⟩ name start) []) fun _ t => t.Credit source k :=
    .rounds (I := fun _ t => t.Credit source k) h fun _ _ ht => same_tagRound hnested ht
  rw [tag, tag]
  apply hrounds.bind
  intro _ t ht
  refine looks_spanFrom.step fun span => ⟨rfl, ?_⟩
  rintro _ _ ⟨⟩
  exact ⟨ht.inside, ht.covers⟩

/-! ### Elements -/

/-- If there is an opening tag, its `<` is left over. -/
theorem same_openTag? (h : s.Credit source k) (hb : s.byteAt source 0 = byte '<') :
  Same source s (openTag? ⟨dialect, mine⟩) (openTag? ⟨dialect, theirs⟩)
    fun tag t => t.Credit source (k + tag.isSome.toNat)
  := by
  have hzero : s.byteAt source 0 ≠ 0 := hb ▸ by decide
  rw [openTag?, openTag?, same_position, same_peek]
  refine .ite (fun _ => ?_) fun _ => .ite (fun _ => ?_) fun _ => .pure h
  · exact (h.advanceBy hzero).bind fun _ _ ht => looks_spanFrom.step fun _ => .pure ht
  apply ((h.advanceBy hzero).and (passes_advance.endsAhead h.inside)).bind
  rintro _ t ⟨ht, hahead⟩
  rw [same_position]
  refine passes_eatWhile.stepAhead ht hahead fun _ u hu hahead => looks_sliceFrom.step fun _ => ?_
  -- The cursor may go back to the `<`, and then the `<` pays for nothing.
  refine passes_opensTypeParameters.stepAhead hu hahead fun _ v hv hahead => ?_
  refine .ite (fun _ => (h.back hahead).mono ?_) fun _ => ?_
  · rintro _ _ ⟨rfl, hw⟩
    exact hw
  exact (same_tag hnested hv).bind fun _ _ hw => looks_spanFrom.step fun _ => .pure hw

theorem same_contentRound (h : s.Credit source k) {outer : Scan.OpenTag} {depth : Nat} :
  Same source s (contentRound ⟨dialect, mine⟩ outer depth)
    (contentRound ⟨dialect, theirs⟩ outer depth)
    (Goes (fun _ t => t.Credit source k) fun _ t => t.Credit source k)
  := by
  rw [contentRound, contentRound]
  apply h.seek.bind
  rintro b t ⟨ht, hb⟩
  refine .ite (fun hbrace => ?_) fun _ => .ite (fun hangle => ?_) fun _ => .throw
  · exact (same_skipBraced hnested ht (hb.trans hbrace)).bind fun _ _ hu =>
      .pure (hu.mono (Nat.le_add_right _ _))
  rw [same_peek]
  refine .ite (fun _ => ?_) fun _ => ?_
  · refine passes_advanceBy.step ht fun _ _ hu => passes_skipPast.step hu fun _ _ hv =>
      .ite (fun _ => .ite (fun _ => .pure hv) fun _ => .pure hv) fun _ => .throw
  · apply (same_openTag? hnested ht (hb.trans hangle)).bind
    intro tag u hu
    replace hu := hu.mono (Nat.le_add_right _ _)
    cases tag with
    | some tag => exact .pure hu
    | none => exact passes_advance.step hu fun _ _ hv => .pure hv

/-- If there is an element, its `<` is left over. -/
theorem same_element (h : s.Credit source k) (hb : s.byteAt source 0 = byte '<') :
  Same source s (element ⟨dialect, mine⟩) (element ⟨dialect, theirs⟩)
    fun found t => t.Credit source (k + found.toNat)
  := by
  rw [element, element]
  apply (same_openTag? hnested h hb).bind
  intro tag t ht
  cases tag with
  | none => exact .pure ht
  | some tag =>
    refine .ite (fun _ => .pure ht) fun _ => ?_
    have hcontent : Same source t (rounds (contentRound ⟨dialect, mine⟩ tag) 1)
        (rounds (contentRound ⟨dialect, theirs⟩ tag) 1) fun _ u => u.Credit source (k + 1) :=
      .rounds (I := fun _ u => u.Credit source (k + 1)) ht fun _ _ hu =>
        same_contentRound hnested hu
    exact hcontent.bind fun _ _ hu => .pure hu

/-! ### Code -/

omit hnested in
/-- A round over a template is paid for if its end and its holes are. -/
theorem same_templatePart {again : σ} {start : Nat} {closing closing' hole hole' :
    Reading (Round σ α)} {Q : Round σ α → State → Prop} (h : s.Credit source k)
    (hagain : ∀ t, t.Credit source k → Q (.again again) t)
    (hclosing : ∀ t, t.Credit source k → t.byteAt source 0 = byte '\x60' →
      Same source t closing closing' Q)
    (hhole : ∀ t, t.Credit source k → t.byteAt source 0 = byte '$' →
      Same source t hole hole' Q) :
  Same source s (templatePart again start closing hole)
    (templatePart again start closing' hole') Q
  := by
  rw [templatePart, templatePart]
  apply h.seek.bind
  rintro b t ⟨ht, rfl⟩
  refine .ite (hclosing t ht) fun _ => .ite (fun _ => ?_) fun _ => ?_
  · exact passes_advance.step ht fun _ _ hu => passes_advanceChar.step hu fun _ _ hv =>
      .pure (hagain _ hv)
  rw [same_peek]
  refine .ite (fun hdollar => ?_) fun _ => .ite (fun _ => ?_) fun _ => .fail
  · simp only [Bool.and_eq_true, decide_eq_true_eq] at hdollar
    exact hhole t ht hdollar.1
  · exact passes_advance.step ht fun _ _ hu => .pure (hagain _ hu)

theorem same_skipTemplate (h : s.Credit source k) :
  Same source s (skipTemplate ⟨dialect, mine⟩) (skipTemplate ⟨dialect, theirs⟩)
    fun _ t => t.Credit source k
  := by
  rw [skipTemplate, skipTemplate, same_position]
  apply passes_advance.step h
  intro _ t ht
  apply Same.rounds (I := fun _ t => t.Credit source k) ht
  intro _ u hu
  apply same_templatePart hu fun _ hv => hv
  · exact fun v hv _ => passes_advance.step hv fun _ _ hw => .pure hw
  · intro v hv _
    refine passes_advanceBy.step hv fun _ _ hw => (hnested.code hw _).bind fun _ _ hw =>
      .ite (fun _ => ?_) fun _ => .fail
    exact passes_advance.step hw fun _ _ hz => .pure hz

omit hnested in
theorem passes_operator {place : Scan.Place} :
  Passes (operator place)
  := passes_advance.bind fun _ => passes_pure

omit hnested in
theorem passes_slash {place : Scan.Place} :
  Passes (slash place)
  := .ite (passes_skipRegex.bind fun _ => .ite passes_pure passes_operator) passes_operator

theorem same_angle (h : s.Credit source k) (hb : s.byteAt source 0 = byte '<')
    {place : Scan.Place} :
  Same source s (angle ⟨dialect, mine⟩ place) (angle ⟨dialect, theirs⟩ place)
    fun _ t => t.Credit source k
  := by
  rw [angle, angle]
  refine .ite (fun _ => ?_) fun _ => passes_operator.ends h
  apply (same_element hnested h hb).bind
  intro found t ht
  replace ht := ht.mono (Nat.le_add_right _ _)
  exact .ite (fun _ => .pure ht) fun _ => passes_operator.ends ht

theorem same_lexeme (h : s.Credit source k) {place : Scan.Place} {b : UInt8}
    (hb : s.byteAt source 0 = b) :
  Same source s (lexeme ⟨dialect, mine⟩ place b) (lexeme ⟨dialect, theirs⟩ place b)
    fun _ t => t.Credit source k
  := by
  rw [lexeme, lexeme]
  refine .ite (fun _ => ?_) fun _ => .ite (fun _ => ?_) fun _ =>
    .ite (fun _ => passes_slash.ends h) fun _ =>
    .ite (fun hangle => same_angle hnested h (hb.trans hangle)) fun _ => .ite (fun _ => ?_)
    fun _ => .ite (fun _ => ?_) fun _ => .ite (fun _ => ?_) fun _ => .ite (fun _ => ?_)
    fun _ => passes_operator.ends h
  · exact passes_skipString.discard.step h fun _ _ ht => .pure ht
  · exact (same_skipTemplate hnested h).bind fun _ _ ht => .pure ht
  · exact passes_advance.step h fun _ _ ht => .pure ht
  · exact passes_advance.step h fun _ _ ht => .pure ht
  · rw [same_position]
    exact passes_eatName.step h fun _ _ ht => looks_sliceFrom.step fun _ => .pure ht
  · exact passes_eatWhile.step h fun _ _ ht => .pure ht

theorem same_codeRound (h : s.Credit source k) {stops : List Char} {place : Scan.Place} :
  Same source s (codeRound ⟨dialect, mine⟩ stops place) (codeRound ⟨dialect, theirs⟩ stops place)
    (Goes (fun _ t => t.Credit source k) fun _ t => t.Credit source k)
  := by
  rw [codeRound, codeRound]
  apply passes_eatSpacing.step h
  intro _ t ht
  refine looks_atEnd.step fun _ => .ite (fun _ => .pure ht) fun _ => ?_
  rw [same_current]
  refine .ite (fun _ => .pure ht) fun _ => ?_
  have hnext (isComment : Bool) {u : State} (hu : u.Credit source k)
      (hstays : isComment = false → u = t) :
      Same source u
        (do
          if isComment then return .again place
          else return .again (← lexeme ⟨dialect, mine⟩ place (t.byteAt source 0)))
        (do
          if isComment then return .again place
          else return .again (← lexeme ⟨dialect, theirs⟩ place (t.byteAt source 0)))
        (Goes (fun _ t => t.Credit source k) fun (_ : Bool) t => t.Credit source k) := by
    refine .ite (fun _ => .pure hu) fun hno => ?_
    obtain rfl := hstays (eq_false_of_ne_true hno)
    exact (same_lexeme hnested hu rfl).bind fun _ _ hv => .pure hv
  refine .ite (fun _ => ?_) fun _ => hnext false ht fun _ => rfl
  have hcomment : Ends source t skipComment fun isComment u => isComment = false → u = t :=
    ⟨rfl, fun isComment u hrun hno => eq_of_skipComment (hno ▸ hrun)⟩
  exact ((passes_skipComment.ends ht).and hcomment).bind fun isComment _ hu =>
    hnext isComment hu.1 hu.2

theorem same_code (h : s.Credit source k) (stops : List Char) :
  Same source s (code ⟨dialect, mine⟩ stops) (code ⟨dialect, theirs⟩ stops)
    fun _ t => t.Credit source k
  := .rounds (I := fun _ t => t.Credit source k) h fun _ _ ht => same_codeRound hnested ht

end UtilityClasses.Cursor
