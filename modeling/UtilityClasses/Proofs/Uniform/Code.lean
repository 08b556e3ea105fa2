import UtilityClasses.Proofs.Scan.Uniform
import UtilityClasses.Scan.Code

/-!
# Tags, elements and code in any company

Tags, elements and code are scanned in the same way whatever has been found before, if the constructs
inside them are.
-/

namespace UtilityClasses.Scan

variable {base : State} {context : Context}

/-- The constructs inside others are scanned in the same way whatever has been found before. -/
structure Nested.Uniform (base : State) (nested : Nested) : Prop where
  code (stops : List Char) : Scan.Uniform base (nested.code stops)
  element : Scan.Uniform base nested.element
  region (stops : List Char) : Lifts base (nested.region stops) (nested.region stops) (Ids base)
  expression : Lifts base nested.expression.run nested.expression.run (Option.Rel (Ids base))
  operand : Lifts base nested.operand.run nested.operand.run (Option.Rel (Ids base))

theorem uniform_braced (h : context.nested.Uniform base) :
  Uniform base (braced context)
  := by
  rw [braced]
  refine uniform_position.bind fun _ => uniform_skip.bind fun _ => (h.code _).bind fun found => ?_
  split
  · exact uniform_skip
  · exact uniform_fail

/-! ### Attributes -/

theorem uniform_quotedValue {quote : Quote} {delimiter : Char} {name : String} :
  Uniform base (quotedValue quote delimiter name)
  := by
  rw [quotedValue]
  refine uniform_position.bind fun _ => uniform_skip.bind fun _ =>
    uniform_takeWhile.bind fun _ => uniform_rest.bind fun _ => ?_
  split
  · exact uniform_fail
  · exact uniform_skip.bind fun _ => uniform_spanFrom.bind fun _ => .pure rfl

theorem uniform_unquotedValue {name : String} :
  Uniform base (unquotedValue name)
  := by
  rw [unquotedValue]
  refine uniform_position.bind fun _ => uniform_rest.bind fun _ => uniform_take.bind fun _ => ?_
  split
  · exact uniform_fail
  · exact uniform_spanFrom.bind fun _ => .pure rfl

/-- The values are the same but for the number of the expression in a container. -/
abbrev Values (base : State) (value value' : AttrValue) : Prop :=
  value' = value.renumber base.number

theorem lifts_container (h : context.nested.Uniform base) :
  Lifts base (container context) (container context) (Values base)
  := by
  rw [container]
  refine uniform_position.bind fun _ => uniform_skip.bind fun _ => (h.region _).bind ?_
  rintro node _ rfl
  apply uniform_rest.bind
  intro ahead
  split
  · exact uniform_skip.bind fun _ => uniform_spanFrom.bind fun _ => .pure rfl
  · exact uniform_fail

theorem lifts_attributeValue (h : context.nested.Uniform base) {name : String} :
  Lifts base (attributeValue context name) (attributeValue context name) fun value value' =>
    value' = value.map (·.renumber base.number)
  := by
  rw [attributeValue]
  refine uniform_position.bind fun _ => uniform_rest.bind fun ahead => ?_
  dsimp only
  split
  · exact uniform_quotedValue.bind fun _ => .pure rfl
  split
  · exact uniform_quotedValue.bind fun _ => .pure rfl
  split
  · apply (lifts_container h).bind
    rintro value _ rfl
    exact .pure rfl
  split
  · apply h.element.bind
    intro found
    split
    · exact .pure rfl
    · exact uniform_fail
  split
  · exact uniform_unquotedValue.bind fun _ => .pure rfl
  · exact uniform_fail

theorem lifts_attributeTail (h : context.nested.Uniform base) {name : String} {start : Nat} :
  Lifts base (attributeTail context name start) (attributeTail context name start)
    fun attr attr' => attr' = attr.renumber base.number
  := by
  rw [attributeTail]
  apply uniform_spanFrom.bind
  intro nameSpan
  apply lifts_get.bind
  rintro before _ rfl
  refine uniform_skipSpacing.bind fun _ => uniform_rest.bind fun ahead => ?_
  split
  · refine uniform_skip.bind fun _ => uniform_skipSpacing.bind fun _ =>
      (lifts_attributeValue h).bind ?_
    rintro value _ rfl
    exact uniform_spanFrom.bind fun _ => .pure rfl
  · apply lifts_set.bind
    intro _ _ _
    exact .pure rfl

theorem lifts_attribute? (h : context.nested.Uniform base) :
  Lifts base (attribute? context) (attribute? context) fun attr attr' =>
    attr' = attr.map (·.renumber base.number)
  := by
  rw [attribute?]
  refine uniform_position.bind fun _ => uniform_takeWhile.bind fun name => ?_
  dsimp only
  split
  · exact uniform_skip.bind fun _ => .pure rfl
  · apply (lifts_attributeTail h).bind
    rintro attr _ rfl
    exact .pure rfl

/-! ### Tags -/

theorem uniform_betweenAttributes {dialect : Dialect} :
  Uniform base (betweenAttributes dialect)
  := by
  rw [betweenAttributes]
  split
  · exact uniform_skipSpacing
  · exact uniform_skipTrivia

theorem lifts_tagTail (h : context.nested.Uniform base) {name : String} {start : Nat}
    (budget : Nat) (attributes : List Attribute) :
  Lifts base (tagTail context name start budget attributes)
    (tagTail context name start budget (attributes.map (·.renumber base.number)))
    fun result result' => result' = (result.1, result.2.map (·.renumber base.number))
  := by
  induction budget generalizing attributes with
  | zero => exact uniform_exhaust
  | succ budget ih =>
    rw [tagTail, tagTail]
    refine uniform_betweenAttributes.bind fun _ => uniform_rest.bind fun ahead => ?_
    split
    · exact uniform_fail
    · exact uniform_skip.bind fun _ => .pure rfl
    · exact uniform_skip.bind fun _ => .pure rfl
    · apply Lifts.ite
      · exact fun _ => (uniform_braced h).bind fun _ => ih attributes
      · intro _
        apply (lifts_attribute? h).bind
        rintro attr _ rfl
        have happend : (attributes ++ attr.toList).map (·.renumber base.number) =
            attributes.map (·.renumber base.number) ++
              (attr.map (·.renumber base.number)).toList := by
          cases attr <;> simp
        rw [← happend]
        apply ih

theorem uniform_tag (h : context.nested.Uniform base) {name : String} {start : Nat} :
  Uniform base (tag context name start)
  := by
  rw [tag]
  apply (lifts_tagTail h context.budget []).bind
  rintro ⟨selfClosing, attributes⟩ _ rfl
  refine uniform_spanFrom.bind fun span => ?_
  apply (@lifts_record base ⟨name, span, attributes⟩).bind
  intro _ _ _
  exact .pure rfl

/-! ### Elements -/

theorem uniform_openTag? (h : context.nested.Uniform base) :
  Uniform base (openTag? context)
  := by
  rw [openTag?]
  refine uniform_position.bind fun _ => uniform_rest.bind fun ahead => ?_
  split
  · exact uniform_skip.bind fun _ => uniform_spanFrom.bind fun _ => .pure rfl
  · split
    · apply lifts_get.bind
      rintro before _ rfl
      refine uniform_skip.bind fun _ => uniform_takeWhile.bind fun _ =>
        uniform_rest.bind fun later => ?_
      split
      · apply lifts_set.bind
        intro _ _ _
        exact .pure rfl
      · exact (uniform_tag h).bind fun _ => uniform_spanFrom.bind fun _ => .pure rfl
    · exact .pure rfl
  · exact .pure rfl

theorem uniform_content (h : context.nested.Uniform base) {outer : OpenTag} (budget inner : Nat) :
  Uniform base (content context outer budget inner)
  := by
  induction budget generalizing inner with
  | zero => exact uniform_exhaust
  | succ budget ih =>
    rw [content.eq_def]
    refine uniform_takeWhile.discard.bind fun _ => uniform_rest.bind fun ahead => ?_
    split
    · exact uniform_throw
    · refine uniform_skip.bind fun _ => uniform_skipPast.bind fun found => ?_
      split
      · split
        · exact .pure rfl
        · apply ih
      · exact uniform_throw
    · apply (uniform_openTag? h).bind
      intro tag
      split
      · apply ih
      · exact uniform_skip.bind fun _ => ih inner
    · exact (uniform_braced h).bind fun _ => ih inner

theorem uniform_element (h : context.nested.Uniform base) :
  Uniform base (element context)
  := by
  rw [element]
  apply (uniform_openTag? h).bind
  intro tag
  split
  · split
    · exact .pure rfl
    · exact (uniform_content h _ 0).bind fun _ => .pure rfl
  · exact .pure rfl

/-! ### Code -/

theorem uniform_templateTail (h : context.nested.Uniform base) {start : Nat} (budget : Nat) :
  Uniform base (templateTail context start budget)
  := by
  induction budget with
  | zero => exact uniform_exhaust
  | succ budget ih =>
    rw [templateTail]
    refine uniform_rest.bind fun _ => uniform_skip.bind fun _ => uniform_rest.bind fun ahead => ?_
    split
    · exact uniform_skip
    · exact uniform_fail
    · refine uniform_skip.bind fun _ => (h.code _).bind fun found => ?_
      split
      · exact uniform_skip.bind fun _ => ih
      · exact uniform_fail

theorem uniform_skipTemplate (h : context.nested.Uniform base) :
  Uniform base (skipTemplate context)
  := by
  rw [skipTemplate]
  exact uniform_position.bind fun _ => uniform_skip.bind fun _ => uniform_templateTail h _

theorem uniform_operator {place : Place} :
  Uniform base (operator place)
  := uniform_skip.bind fun _ => .pure rfl

theorem uniform_slash {place : Place} :
  Uniform base (slash place)
  := by
  rw [slash]
  split
  · apply uniform_skipRegex.bind
    intro found
    split
    · exact .pure rfl
    · exact uniform_operator
  · exact uniform_operator

theorem uniform_angle (h : context.nested.Uniform base) {place : Place} :
  Uniform base (angle context place)
  := by
  rw [angle]
  split
  · apply (uniform_element h).bind
    intro found
    split
    · exact .pure rfl
    · exact uniform_operator
  · exact uniform_operator

theorem uniform_lexeme (h : context.nested.Uniform base) {place : Place} {c : Char} :
  Uniform base (lexeme context place c)
  := by
  rw [lexeme]
  split
  · exact uniform_stringLiteral.discard.bind fun _ => .pure rfl
  split
  · exact (uniform_skipTemplate h).bind fun _ => .pure rfl
  split
  · exact uniform_slash
  split
  · exact uniform_angle h
  split
  · exact uniform_skip.bind fun _ => .pure rfl
  split
  · exact uniform_skip.bind fun _ => .pure rfl
  split
  · exact uniform_takeWhile.bind fun _ => .pure rfl
  split
  · exact uniform_takeWhile.discard.bind fun _ => .pure rfl
  · exact uniform_operator

theorem uniform_codeFrom (h : context.nested.Uniform base) {stops : List Char} (budget : Nat)
    (place : Place) :
  Uniform base (codeFrom context stops budget place)
  := by
  induction budget generalizing place with
  | zero => exact uniform_exhaust
  | succ budget ih =>
    rw [codeFrom]
    refine uniform_skipTrivia.bind fun _ => uniform_rest.bind fun ahead => ?_
    split
    · exact .pure rfl
    · split
      · exact .pure rfl
      · exact (uniform_lexeme h).bind fun place => ih place

theorem uniform_code (h : context.nested.Uniform base) {stops : List Char} :
  Uniform base (code context stops)
  := uniform_codeFrom h _ _

end UtilityClasses.Scan
