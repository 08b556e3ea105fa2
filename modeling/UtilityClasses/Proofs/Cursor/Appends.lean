import UtilityClasses.Proofs.Cursor.Expression
import UtilityClasses.Proofs.Cursor.Finds

/-!
# Finds are only added to

No reading removes or changes what had been found when it started. So what a region finds that is
read as code, after it could not be read as an expression, are the finds of the code alone.
-/

namespace UtilityClasses.Cursor

open Allocator (unbounded)
open Scan (run_lift_bind run_lift run_guard_bind run_ite discard_bind)

variable {α β σ : Type} {context : Context} {source : List Char} {s t u : State}

/-! ### Finds -/

theorem appends_record {element : Element} :
  Appends (record element)
  := by
  rintro source s _ _ ⟨⟩
  constructor
  · rw [Array.toList_push]
    exact List.prefix_append _ _
  · exact List.prefix_rfl

theorem appends_store {shape : ExprShape} {span : Span} :
  Appends (store shape span)
  := by
  rintro source s _ _ ⟨⟩
  constructor
  · exact List.prefix_rfl
  · rw [Array.toList_push]
    exact List.prefix_append _ _

/-- An expression is stored that ends where the cursor is, and there is nothing left to try. -/
theorem appends_storeFrom {shape : ExprShape} {start : Nat} :
  Appends (do
    let span ← spanFrom start
    some <$> store shape span)
  := respects_spanFrom.bind fun _ => appends_store.some

/-- The constructs inside others only add to what has been found. -/
structure Nested.Appends (nested : Nested) : Prop where
  code (stops : List Char) : Cursor.Appends (nested.code stops)
  element : Cursor.Appends nested.element
  region (stops : List Char) : Cursor.Appends (nested.region stops)
  expression : Cursor.Appends nested.expression.run
  operand : Cursor.Appends nested.operand.run

variable (h : context.nested.Appends)
include h

/-! ### Tags -/

theorem appends_skipBraced :
  Appends (skipBraced context)
  := respects_position.bind fun _ => respects_advance.bind fun _ => (h.code _).bind fun _ =>
    .ite respects_advance respects_fail

theorem appends_container :
  Appends (container context)
  := respects_position.bind fun _ => respects_advance.bind fun _ => (h.region _).bind fun _ =>
    respects_current.bind fun _ => .ite (respects_advance.bind fun _ => respects_spanFrom.bind
      fun _ => respects_pure) respects_fail

theorem appends_attributeValue {name : String} :
  Appends (attributeValue context name)
  := by
  refine respects_position.bind fun _ => respects_current.bind fun _ =>
    .ite ?_ (.ite ?_ (.ite ?_ (.ite ?_ (.ite ?_ respects_throw))))
  · exact respects_quotedValue.bind fun _ => respects_pure
  · exact respects_quotedValue.bind fun _ => respects_pure
  · exact (appends_container h).bind fun _ => respects_pure
  · exact h.element.bind fun _ => .ite respects_pure respects_throw
  · exact respects_unquotedValue.bind fun _ => respects_pure

theorem appends_attributeTail {name : String} {start : Nat} :
  Appends (attributeTail context name start)
  := by
  refine respects_spanFrom.bind fun _ => respects_position.bind fun _ => respects_eatSpacing.bind
    fun _ => respects_current.bind fun _ => .ite ?_ ?_
  · exact respects_advance.bind fun _ => respects_eatSpacing.bind fun _ =>
      (appends_attributeValue h).bind fun _ => respects_spanFrom.bind fun _ => respects_pure
  · exact respects_moveTo.bind fun _ => respects_pure

theorem appends_attribute? :
  Appends (attribute? context)
  := respects_position.bind fun _ => respects_eatWhile.bind fun _ => respects_position.bind
    fun _ => .ite (respects_advanceChar.bind fun _ => respects_pure)
      (respects_sliceFrom.bind fun _ => (appends_attributeTail h).bind fun _ => respects_pure)

theorem appends_tagRound {name : String} {start : Nat} {attributes : List Attribute} :
  Appends (tagRound context name start attributes)
  := by
  rw [tagRound]
  refine respects_eatSpacing.bind fun _ => respects_current.bind fun _ => .ite ?_ ?_
  · exact respects_advance.bind fun _ => respects_pure
  refine respects_peek.bind fun _ => .ite ?_ (.ite ?_ ?_)
  · exact respects_advanceBy.bind fun _ => respects_pure
  · exact (appends_skipBraced h).bind fun _ => respects_pure
  refine respects_atEnd.bind fun _ => .ite respects_fail ?_
  refine respects_peek.bind fun _ => respects_peek.bind fun _ => .ite ?_ ?_
  · exact respects_skipComment.discard.bind fun _ => respects_pure
  · exact (appends_attribute? h).bind fun _ => respects_pure

theorem appends_tag {name : String} {start : Nat} :
  Appends (tag context name start)
  := (Respects.rounds (fun _ => appends_tagRound h) []).bind fun _ => respects_spanFrom.bind
    fun _ => appends_record.bind fun _ => respects_pure

/-! ### Elements -/

theorem appends_openTag? :
  Appends (openTag? context)
  := by
  refine respects_position.bind fun _ => respects_peek.bind fun _ => .ite ?_ (.ite ?_ respects_pure)
  · exact respects_advanceBy.bind fun _ => respects_spanFrom.bind fun _ => respects_pure
  · refine respects_advance.bind fun _ => respects_position.bind fun _ => respects_eatWhile.bind
      fun _ => respects_sliceFrom.bind fun _ => respects_opensTypeParameters.bind fun _ =>
      .ite ?_ ?_
    · exact respects_moveTo.bind fun _ => respects_pure
    · exact (appends_tag h).bind fun _ => respects_spanFrom.bind fun _ => respects_pure

theorem appends_contentRound {outer : Scan.OpenTag} {depth : Nat} :
  Appends (contentRound context outer depth)
  := by
  rw [contentRound]
  refine respects_seek.bind fun _ => .ite ?_ (.ite (respects_peek.bind fun _ => .ite ?_ ?_)
    respects_throw)
  · exact (appends_skipBraced h).bind fun _ => respects_pure
  · exact respects_advanceBy.bind fun _ => respects_skipPast.bind fun _ =>
      .ite (.ite respects_pure respects_pure) respects_throw
  · refine (appends_openTag? h).bind fun tag => ?_
    cases tag with
    | some tag => exact respects_pure
    | none => exact respects_advance.bind fun _ => respects_pure

theorem appends_element :
  Appends (element context)
  := by
  refine (appends_openTag? h).bind fun tag => ?_
  cases tag with
  | some tag =>
    exact .ite respects_pure ((Respects.rounds (fun _ => appends_contentRound h) 1).bind fun _ =>
      respects_pure)
  | none => exact respects_pure

/-! ### Code -/

omit h in
theorem appends_templatePart {again : σ} {start : Nat} {closing hole : Reading (Round σ α)}
    (hclosing : Appends closing) (hhole : Appends hole) :
  Appends (templatePart again start closing hole)
  := by
  rw [templatePart]
  refine respects_seek.bind fun _ => .ite hclosing (.ite ?_ (respects_peek.bind fun _ =>
    .ite hhole (.ite ?_ respects_fail)))
  · exact respects_advance.bind fun _ => respects_advanceChar.bind fun _ => respects_pure
  · exact respects_advance.bind fun _ => respects_pure

theorem appends_skipTemplate :
  Appends (skipTemplate context)
  := by
  refine respects_position.bind fun _ => respects_advance.bind fun _ => .rounds (fun _ => ?_) ()
  apply appends_templatePart
  · exact respects_advance.bind fun _ => respects_pure
  · exact respects_advanceBy.bind fun _ => (h.code _).bind fun _ =>
      .ite (respects_advance.bind fun _ => respects_pure) respects_fail

omit h in
theorem appends_operator {place : Scan.Place} :
  Appends (operator place)
  := respects_advance.bind fun _ => respects_pure

omit h in
theorem appends_slash {place : Scan.Place} :
  Appends (slash place)
  := .ite (respects_skipRegex.bind fun _ => .ite respects_pure appends_operator) appends_operator

theorem appends_angle {place : Scan.Place} :
  Appends (angle context place)
  := .ite ((appends_element h).bind fun _ => .ite respects_pure appends_operator) appends_operator

theorem appends_lexeme {place : Scan.Place} {b : UInt8} :
  Appends (lexeme context place b)
  := by
  rw [lexeme]
  refine .ite ?_ (.ite ?_ (.ite appends_slash (.ite (appends_angle h) (.ite ?_ (.ite ?_
    (.ite ?_ (.ite ?_ appends_operator)))))))
  · exact respects_skipString.discard.bind fun _ => respects_pure
  · exact (appends_skipTemplate h).bind fun _ => respects_pure
  · exact respects_advance.bind fun _ => respects_pure
  · exact respects_advance.bind fun _ => respects_pure
  · exact respects_position.bind fun _ => respects_eatName.bind fun _ => respects_sliceFrom.bind
      fun _ => respects_pure
  · exact respects_eatWhile.bind fun _ => respects_pure

theorem appends_code {stops : List Char} :
  Appends (code context stops)
  := by
  refine .rounds (fun place => ?_) _
  rw [codeRound]
  refine respects_eatSpacing.bind fun _ => respects_atEnd.bind fun _ => .ite respects_pure ?_
  refine respects_current.bind fun b => .ite respects_pure ?_
  have hnext (isComment : Bool) : Appends (do
      if isComment then return .again place
      else return .again (← lexeme context place b) : Reading (Round Scan.Place Bool)) :=
    .ite respects_pure ((appends_lexeme h).bind fun _ => respects_pure)
  exact .ite (respects_skipComment.bind hnext) (hnext false)

/-! ### Operands -/

omit h in
theorem appends_stringNode {quote : Quote} :
  Appends (unbounded.stringNode quote)
  := respects_skipString.bind fun _ => respects_slice.bind fun _ => appends_store

theorem appends_templateNode :
  Appends (unbounded.templateNode context)
  := by
  refine respects_position.bind fun _ => respects_advance.bind fun _ => respects_position.bind
    fun _ => .rounds (fun template => ?_) _
  apply appends_templatePart
  · exact respects_sliceFrom.bind fun _ => respects_advance.bind fun _ =>
      respects_spanFrom.bind fun _ => appends_store.bind fun _ => respects_pure
  · exact respects_sliceFrom.bind fun _ => respects_advanceBy.bind fun _ => (h.region _).bind
      fun _ => respects_current.bind fun _ => .ite (respects_advance.bind fun _ =>
        respects_position.bind fun _ => respects_pure) respects_fail

theorem appends_parenNode :
  Appends (unbounded.parenNode context).run
  := by
  rw [Allocator.parenNode]
  simp only [run_lift_bind]
  refine respects_position.bind fun _ => respects_advance.bind fun _ => respects_skipTrivia.bind
    fun _ => h.expression.tries fun _ => ?_
  simp only [run_lift_bind, run_lift, run_guard_bind]
  exact respects_skipTrivia.bind fun _ => respects_current.bind fun _ =>
    .ite (respects_advance.bind fun _ => appends_storeFrom)
      respects_pure

theorem appends_arrayNode :
  Appends (unbounded.arrayNode context).run
  := by
  have hround (items : List ExprId) : Appends (arrayRound context items).run := by
    rw [arrayRound]
    simp only [run_lift_bind, run_guard_bind, run_ite]
    refine respects_skipTrivia.bind fun _ => respects_current.bind fun _ => .ite ?_ (.ite ?_ ?_)
    · exact respects_advance.bind fun _ => respects_pure
    · exact respects_advance.bind fun _ => respects_pure
    · exact (h.region _).bind fun _ => respects_current.bind fun _ =>
        .ite (respects_advance.bind fun _ => respects_pure) (.ite respects_pure respects_pure)
  rw [Allocator.arrayNode]
  simp only [run_lift_bind]
  refine respects_position.bind fun _ => respects_advance.bind fun _ =>
    (Respects.trialRounds hround []).tries fun _ => ?_
  simp only [run_lift_bind, run_lift]
  exact appends_storeFrom

theorem appends_primary :
  Appends (unbounded.primary context).run
  := by
  rw [Allocator.primary]
  simp only [run_lift_bind, run_lift, run_guard_bind, run_ite]
  refine respects_position.bind fun _ => respects_current.bind fun _ => .ite ?_ (.ite ?_ (.ite ?_
    (.ite ?_ (.ite ?_ (.ite ?_ (.ite ?_ (.ite ?_ (.ite ?_ respects_pure))))))))
  · exact appends_stringNode.some
  · exact appends_stringNode.some
  · exact (appends_templateNode h).some
  · exact appends_parenNode h
  · exact appends_arrayNode h
  · exact (appends_skipBraced h).bind fun _ => appends_storeFrom
  · exact (appends_element h).bind fun _ => .ite appends_storeFrom respects_pure
  · exact respects_eatWhile.bind fun _ => appends_storeFrom
  · exact respects_eatName.bind fun _ => respects_sliceFrom.bind fun _ =>
      .ite appends_storeFrom respects_pure

/-! ### Member access, calls and indices -/

omit h in
theorem appends_memberNode {object : Scan.Node} :
  Appends (unbounded.memberNode object).run
  := by
  refine respects_propertyName.tries fun _ => ?_
  simp only [run_lift_bind, run_lift]
  exact appends_storeFrom

theorem appends_callNode {callee : Scan.Node} :
  Appends (unbounded.callNode context callee).run
  := by
  have hround (args : List ExprId) : Appends (callRound context args).run := by
    rw [callRound]
    simp only [run_lift_bind, run_guard_bind, run_ite]
    refine respects_skipTrivia.bind fun _ => respects_current.bind fun _ => .ite ?_ ?_
    · exact respects_advance.bind fun _ => respects_pure
    · exact (h.region _).bind fun _ => respects_current.bind fun _ =>
        .ite (respects_advance.bind fun _ => respects_pure) (.ite respects_pure respects_pure)
  rw [Allocator.callNode]
  simp only [run_lift_bind]
  refine respects_advance.bind fun _ => (Respects.trialRounds hround []).tries fun _ => ?_
  simp only [run_lift_bind, run_lift]
  exact appends_storeFrom

theorem appends_indexNode {object : Scan.Node} :
  Appends (unbounded.indexNode context object).run
  := by
  rw [Allocator.indexNode]
  simp only [run_lift_bind, run_lift, run_guard_bind, discard_bind]
  exact respects_advance.bind fun _ => (h.region _).bind fun _ => respects_current.bind fun _ =>
    .ite (respects_advance.bind fun _ => appends_storeFrom)
      respects_pure

theorem appends_optionalNode {node : Scan.Node} :
  Appends (unbounded.optionalNode context node).run
  := by
  rw [Allocator.optionalNode]
  simp only [run_lift_bind, run_ite]
  exact respects_current.bind fun _ =>
    .ite (appends_callNode h) (.ite (appends_indexNode h) appends_memberNode)

theorem appends_suffixRound {node : Scan.Node} :
  Appends (unbounded.suffixRound context node).run
  := by
  have hagain {x : Trial Scan.Node} (hx : Appends x.run) :
      Appends (do return .again (← x) : Trial (Round Scan.Node Scan.Node)).run :=
    hx.tries fun _ => respects_pure
  rw [Allocator.suffixRound]
  simp only [run_lift_bind, run_ite]
  refine respects_skipTrivia.bind fun _ => respects_current.bind fun _ => respects_peek.bind
    fun _ => .ite respects_pure (.ite ?_ (respects_peekTwo.bind fun _ => .ite ?_ (.ite ?_
      (.ite ?_ (.ite ?_ respects_pure)))))
  · exact respects_advance.bind fun _ => respects_skipTrivia.bind fun _ =>
      hagain appends_memberNode
  · exact respects_advanceBy.bind fun _ => respects_skipTrivia.bind fun _ =>
      hagain (appends_optionalNode h)
  · exact hagain (appends_callNode h)
  · exact hagain (appends_indexNode h)
  · exact respects_advance.bind fun _ => respects_spanFrom.bind fun _ => appends_store.bind
      fun _ => respects_pure

theorem appends_operand :
  Appends (unbounded.operand context).run
  := by
  rw [Allocator.operand]
  simp only [run_lift_bind, run_ite]
  refine respects_skipTrivia.bind fun _ => respects_position.bind fun _ => respects_eatText.bind
    fun _ => .ite ?_ (respects_eatUnary.bind fun _ => .ite ?_ ?_)
  · exact respects_skipTrivia.bind fun _ => h.operand.tries fun _ => appends_store.some
  · exact respects_skipTrivia.bind fun _ => h.operand.tries fun _ => appends_store.some
  · exact (appends_primary h).tries fun _ => .trialRounds (fun _ => appends_suffixRound h) _

/-! ### Logical operators and conditionals -/

theorem appends_conjunction :
  Appends (unbounded.conjunction context).run
  := by
  refine (appends_operand h).tries fun _ => .trialRounds (fun left => ?_) _
  rw [Allocator.andRound]
  simp only [run_lift_bind, run_ite]
  refine respects_skipTrivia.bind fun _ => respects_startsWith.bind fun _ => respects_peekTwo.bind
    fun _ => .ite ?_ respects_pure
  refine respects_advanceBy.bind fun _ => respects_skipTrivia.bind fun _ =>
    (appends_operand h).tries fun _ => ?_
  exact appends_store.some.tries fun _ => respects_pure

theorem appends_disjunction :
  Appends (unbounded.disjunction context).run
  := by
  refine (appends_conjunction h).tries fun _ => .trialRounds (fun left => ?_) _
  rw [Allocator.orRound]
  simp only [run_lift_bind]
  refine respects_skipTrivia.bind fun _ => respects_current.bind fun _ => respects_peek.bind
    fun _ => ?_
  split
  · simp only [run_lift_bind, run_ite]
    refine respects_peekTwo.bind fun _ => .ite respects_pure ?_
    refine respects_advanceBy.bind fun _ => respects_skipTrivia.bind fun _ =>
      (appends_conjunction h).tries fun _ => ?_
    exact appends_store.some.tries fun _ => respects_pure
  · exact respects_pure

theorem appends_expression :
  Appends (unbounded.expression context).run
  := by
  rw [Allocator.expression]
  refine (appends_disjunction h).tries fun _ => ?_
  simp only [run_lift_bind, run_ite]
  refine respects_skipTrivia.bind fun _ => respects_atConditional.bind fun _ =>
    .ite ?_ respects_pure
  refine respects_advance.bind fun _ => respects_skipTrivia.bind fun _ =>
    h.expression.tries fun _ => ?_
  simp only [run_lift_bind, run_guard_bind]
  refine respects_skipTrivia.bind fun _ => respects_current.bind fun _ => .ite ?_ respects_pure
  exact respects_advance.bind fun _ => respects_skipTrivia.bind fun _ =>
    h.expression.tries fun _ => appends_store.some

/-! ### Regions -/

theorem appends_wholeExpression {stops : List Char} :
  Appends (unbounded.wholeExpression context stops).run
  := by
  rw [Allocator.wholeExpression]
  refine (appends_expression h).tries fun _ => ?_
  simp only [run_lift_bind, run_guard_bind]
  exact respects_skipTrivia.bind fun _ => respects_current.bind fun _ => respects_atEnd.bind
    fun _ => .ite respects_pure respects_pure

omit h in
/-- The cursor stays if there is no comment. -/
theorem eq_of_skipComment (hrun : skipComment source s = .ok (false, t)) :
  t = s
  := by
  obtain ⟨_, _, ⟨⟩, hrun⟩ := exists_of_bind hrun
  split at hrun
  · obtain ⟨_, _, ⟨⟩, hrun⟩ := exists_of_bind hrun
    split at hrun
    · obtain ⟨_, _, _, ⟨⟩⟩ := exists_of_bind hrun
    · split at hrun
      · obtain ⟨_, _, ⟨⟩, hrun⟩ := exists_of_bind hrun
        obtain ⟨_, _, _, hrun⟩ := exists_of_bind hrun
        obtain ⟨_, _, _, hrun⟩ := exists_of_bind hrun
        split at hrun <;> cases hrun
      · cases hrun
        rfl
  · cases hrun
    rfl

omit h in
/-- Blanks and comments end at a character or at the end, as the last blanks have been passed over
without a comment behind them. -/
theorem isSome_cutAt_of_skipTrivia (hrun : skipTrivia source s = .ok ((), t)) :
  (Text.cutAt t.pos source).isSome
  := by
  apply rounds_induct hrun (P := fun _ _ => (Text.cutAt t.pos source).isSome)
  · intro _ u hlast
    obtain ⟨_, v, hspacing, hlast⟩ := exists_of_bind hlast
    obtain ⟨found, w, hcomment, hlast⟩ := exists_of_bind hlast
    split at hlast
    · cases hlast
    · next hfound =>
      cases hlast
      rw [Bool.not_eq_true] at hfound
      obtain rfl := eq_of_skipComment (hfound ▸ hcomment)
      obtain ⟨_, _, ⟨⟩, hmove⟩ := exists_of_bind hspacing
      obtain ⟨_, _, ⟨⟩, hmove⟩ := exists_of_bind hmove
      rw [moveTo_eq_ite] at hmove
      split at hmove
      · next hcut =>
        cases hmove
        exact hcut
      · cases hmove
  · exact fun _ _ _ _ _ hcut => hcut

/-- Reads a region as code. -/
def verbatim (context : Context) (stops : List Char) : Reading Scan.Node := do
  skipTrivia
  let start ← position
  discard (code context stops)
  store .verbatim (← spanFrom start)

theorem appends_verbatim {stops : List Char} :
  Appends (verbatim context stops)
  := respects_skipTrivia.bind fun _ => respects_position.bind fun _ => (appends_code h).discard.bind
    fun _ => respects_spanFrom.bind fun _ => appends_store

/-- A region that cannot be read as an expression is read as if that had not been tried. -/
theorem region_apply (stops : List Char) (source : List Char) (s : State) :
  unbounded.region context stops source s =
    match skipTrivia source s with
    | .error halt => .error halt
    | .ok (_, before) =>
      match (unbounded.wholeExpression context stops).run source before with
      | .error halt => .error halt
      | .ok (some node, after) => .ok (node, after)
      | .ok (none, _) => verbatim context stops source s
  := by
  rw [Allocator.region, verbatim, bind_apply, bind_apply]
  cases hskip : skipTrivia source s with
  | error halt => rfl
  | ok result =>
    obtain ⟨_, before⟩ := result
    have hget (f : State → Reading Scan.Node) :
        (get >>= f) source before = f before source before := rfl
    simp only [hget]
    rw [bind_apply]
    cases hwhole : (unbounded.wholeExpression context stops).run source before with
    | error halt => rfl
    | ok result =>
      obtain ⟨found, after⟩ := result
      cases found with
      | some node => rfl
      | none =>
        -- The cursor goes back, and what the attempt has added is cut off again.
        have hextended := appends_wholeExpression h hwhole
        have hrestore : (moveTo before.pos >>= fun _ =>
            truncate before.elements.size before.arena.size) source after = .ok ((), before) := by
          rw [bind_apply, moveTo_eq_ite, if_pos (isSome_cutAt_of_skipTrivia hskip)]
          change Except.ok ((), State.mk before.pos (after.elements.take before.elements.size)
            (after.arena.take before.arena.size)) = _
          rw [take_size_eq hextended.elements, take_size_eq hextended.arena]
        dsimp only
        rw [← bind_assoc, bind_apply, hrestore]
        rfl

theorem appends_region {stops : List Char} :
  Appends (unbounded.region context stops)
  := by
  intro source s node u hrun
  rw [region_apply h] at hrun
  split at hrun
  · cases hrun
  · next before hskip =>
    split at hrun
    · cases hrun
    · next node after hwhole =>
      cases hrun
      exact IgnoresPlace.trans (respects_skipTrivia hskip) (appends_wholeExpression h hwhole)
    · exact appends_verbatim h hrun

/-! ### Sources -/

theorem appends_script :
  Appends (script context)
  := by
  have hcode : Appends (discard (code context [])) := (appends_code h).discard
  exact respects_startsWith.bind fun _ => .ite (respects_eatLine.bind fun _ => hcode) hcode

omit h in
theorem appends_frontmatter :
  Appends frontmatter
  := respects_position.bind fun _ => respects_eatSpacing.bind fun _ => respects_eatText.bind
    fun _ => .ite (respects_skipPast.bind fun _ => .ite respects_eatLine respects_pure)
      respects_moveTo

omit h in
theorem appends_rawTextRound {name : List Char} :
  Appends (rawTextRound name)
  := respects_skipPast.bind fun _ => .ite (respects_startsWithFolded.bind fun _ => .ite
    (respects_position.bind fun _ => respects_moveTo.bind fun _ => respects_pure) respects_pure)
    respects_pure

theorem appends_documentElement :
  Appends (documentElement context)
  := by
  refine respects_position.bind fun _ => respects_advance.bind fun _ => respects_position.bind
    fun _ => respects_eatWhile.bind fun _ => respects_sliceFrom.bind fun _ => (appends_tag h).bind
    fun _ => .ite respects_pure ?_
  split
  · exact .rounds (fun _ => appends_rawTextRound) ()
  · exact respects_pure

theorem appends_documentTag :
  Appends (documentTag context)
  := by
  refine respects_position.bind fun _ => respects_eatText.bind fun _ => .ite ?_
    (respects_peek.bind fun _ => .ite ?_ (.ite (appends_documentElement h) respects_advance))
  · exact respects_skipPast.bind fun _ => .ite respects_pure respects_fail
  · exact respects_advanceBy.bind fun _ => respects_skipPast.discard

theorem appends_documentBraces :
  Appends (documentBraces context)
  := by
  refine .ite (appends_skipBraced h) (respects_peek.bind fun _ => .ite ?_ respects_advance)
  exact respects_advanceBy.bind fun _ => respects_skipPast.discard

theorem appends_document :
  Appends (document context)
  := by
  have hround : Appends (documentRound context) := by
    refine respects_seek.bind fun _ => .ite ?_ (.ite ?_ respects_pure)
    · exact (appends_documentTag h).bind fun _ => respects_pure
    · exact (appends_documentBraces h).bind fun _ => respects_pure
  have hrounds := Respects.rounds (fun _ : Unit => hround) ()
  exact .ite (appends_frontmatter.bind fun _ => hrounds) hrounds

theorem appends_source :
  Appends (Cursor.source context)
  := .ite (appends_document h) (appends_script h)

/-! ### All constructs -/

omit h in
/-- However deep constructs may lie in others, those inside only add to what has been found. -/
theorem appends_nested (dialect : Dialect) (depth : Nat) :
  (unbounded.nested dialect depth).Appends
  := by
  induction depth with
  | zero =>
    constructor
    · exact fun _ => respects_throw
    · exact respects_throw
    · exact fun _ => respects_throw
    · exact respects_throw
    · exact respects_throw
  | succ depth ih =>
    have hcontext : (Context.mk dialect (unbounded.nested dialect depth)).nested.Appends := ih
    constructor
    · exact fun _ => appends_code hcontext
    · exact appends_element hcontext
    · exact fun _ => appends_region hcontext
    · exact appends_expression hcontext
    · exact appends_operand hcontext

/-- Nothing that is read in a context removes or changes what had been found before: words, blanks,
comments, strings, regular expressions and values find nothing, and every other construct only adds
elements and expressions. -/
structure Context.Frames (context : Context) : Prop where
  name : FindsNothing eatName
  string : FindsNothing skipString
  comment : FindsNothing skipComment
  trivia : FindsNothing skipTrivia
  regex : FindsNothing skipRegex
  quotedValue (quote : Quote) (delimiter : Char) (name : String) :
    FindsNothing (Cursor.quotedValue quote delimiter name)
  unquotedValue (name : String) : FindsNothing (Cursor.unquotedValue name)
  typeParameters : FindsNothing opensTypeParameters
  unary : FindsNothing eatUnary
  property : FindsNothing propertyName.run
  braced : Appends (skipBraced context)
  container : Appends (Cursor.container context)
  attributeValue (name : String) : Appends (Cursor.attributeValue context name)
  attributeTail (name : String) (start : Nat) : Appends (Cursor.attributeTail context name start)
  attribute? : Appends (Cursor.attribute? context)
  tag (name : String) (start : Nat) : Appends (Cursor.tag context name start)
  openTag? : Appends (Cursor.openTag? context)
  element : Appends (Cursor.element context)
  template : Appends (skipTemplate context)
  lexeme (place : Scan.Place) (b : UInt8) : Appends (Cursor.lexeme context place b)
  code (stops : List Char) : Appends (Cursor.code context stops)
  stringNode (quote : Quote) : Appends (unbounded.stringNode quote)
  templateNode : Appends (unbounded.templateNode context)
  parenNode : Appends (unbounded.parenNode context).run
  arrayNode : Appends (unbounded.arrayNode context).run
  primary : Appends (unbounded.primary context).run
  memberNode (object : Scan.Node) : Appends (unbounded.memberNode object).run
  callNode (callee : Scan.Node) : Appends (unbounded.callNode context callee).run
  indexNode (object : Scan.Node) : Appends (unbounded.indexNode context object).run
  optionalNode (node : Scan.Node) : Appends (unbounded.optionalNode context node).run
  suffix (node : Scan.Node) : Appends (unbounded.suffixRound context node).run
  operand : Appends (unbounded.operand context).run
  conjunction : Appends (unbounded.conjunction context).run
  disjunction : Appends (unbounded.disjunction context).run
  expression : Appends (unbounded.expression context).run
  wholeExpression (stops : List Char) : Appends (unbounded.wholeExpression context stops).run
  region (stops : List Char) : Appends (unbounded.region context stops)
  script : Appends (Cursor.script context)
  frontmatter : Appends Cursor.frontmatter
  documentElement : Appends (Cursor.documentElement context)
  documentTag : Appends (Cursor.documentTag context)
  documentBraces : Appends (Cursor.documentBraces context)
  document : Appends (Cursor.document context)
  source : Appends (Cursor.source context)

theorem Context.frames :
  context.Frames
  where
  name := respects_eatName
  string := respects_skipString
  comment := respects_skipComment
  trivia := respects_skipTrivia
  regex := respects_skipRegex
  quotedValue _ _ _ := respects_quotedValue
  unquotedValue _ := respects_unquotedValue
  typeParameters := respects_opensTypeParameters
  unary := respects_eatUnary
  property := respects_propertyName
  braced := appends_skipBraced h
  container := appends_container h
  attributeValue _ := appends_attributeValue h
  attributeTail _ _ := appends_attributeTail h
  attribute? := appends_attribute? h
  tag _ _ := appends_tag h
  openTag? := appends_openTag? h
  element := appends_element h
  template := appends_skipTemplate h
  lexeme _ _ := appends_lexeme h
  code _ := appends_code h
  stringNode _ := appends_stringNode
  templateNode := appends_templateNode h
  parenNode := appends_parenNode h
  arrayNode := appends_arrayNode h
  primary := appends_primary h
  memberNode _ := appends_memberNode
  callNode _ := appends_callNode h
  indexNode _ := appends_indexNode h
  optionalNode _ := appends_optionalNode h
  suffix _ := appends_suffixRound h
  operand := appends_operand h
  conjunction := appends_conjunction h
  disjunction := appends_disjunction h
  expression := appends_expression h
  wholeExpression _ := appends_wholeExpression h
  region _ := appends_region h
  script := appends_script h
  frontmatter := appends_frontmatter
  documentElement := appends_documentElement h
  documentTag := appends_documentTag h
  documentBraces := appends_documentBraces h
  document := appends_document h
  source := appends_source h

omit h in
/-- However deep constructs may lie in others, in every state none of them removes or changes what
had been found. So a region that could not be read as an expression ends with the cursor, the
elements and the expressions of one that is read as code from the start. -/
theorem abandoned_leaves_no_trace (dialect : Dialect) (depth : Nat) :
  let context : Context := ⟨dialect, unbounded.nested dialect depth⟩
  context.Frames ∧ ∀ (stops : List Char) (source : List Char) (s : State),
    unbounded.region context stops source s =
      match skipTrivia source s with
      | .error halt => .error halt
      | .ok (_, before) =>
        match (unbounded.wholeExpression context stops).run source before with
        | .error halt => .error halt
        | .ok (some node, after) => .ok (node, after)
        | .ok (none, _) => verbatim context stops source s
  := by
  intro context
  have hnested : context.nested.Appends := appends_nested dialect depth
  exact ⟨Context.frames hnested, region_apply hnested⟩

end UtilityClasses.Cursor
