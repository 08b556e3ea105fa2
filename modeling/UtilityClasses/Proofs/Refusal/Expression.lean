import UtilityClasses.Proofs.Refusal.Code
import UtilityClasses.Scan.Source

/-!
# Expressions account for their errors

Expressions account for their errors, also where they are given up and read again as code. So
every construct does, however deep it lies in others.
-/

namespace UtilityClasses.Scan

variable {source : List Char} {s : State} {context : Context}

/-! ### Operands -/

/-- An expression is stored that ends where the scan stands, and there is nothing left to try. -/
theorem points_storeFrom {shape : ExprShape} {start : Nat} :
  Points source s (do
    let span ← spanFrom start
    some <$> store shape span)
  := accounts_spanFrom points_store.some

theorem points_stringNode {quote : Quote} {delimiter : Char}
    (hdelimiter : delimiter = '"' ∨ delimiter = '\'') (hhead : s.rest.head? = some delimiter) :
  Points source s (stringNode quote delimiter)
  := (points_stringLiteral hdelimiter hhead).bind fun _ _ _ _ _ => points_store

variable (h : context.nested.Accounts source)
include h

theorem points_templateFrom {start : Nat} (budget : Nat) (texts : List String)
    (holes : List ExprId) (hopened : Opened source .openTemplate start s) :
  Points source s (templateFrom context start budget texts holes)
  := by
  induction budget generalizing s texts holes with
  | zero => exact accounts_exhaust
  | succ budget ih =>
    rw [templateFrom]
    refine accounts_rest (accounts_take (accounts_rest (.of_at fun hat => ?_)))
    have hopened := hopened.follow hat (State.pos_le_after _ _)
    split
    · exact accounts_skip (accounts_spanFrom points_store)
    · exact accounts_fail (fun _ => hopened) (by simp)
    · refine accounts_skip (.of_at fun hat' => ?_)
      have hopened := hopened.follow hat' (State.pos_le_after _ _)
      refine (h.region _ _).bind fun hole t ht hle _ => accounts_rest (.ite ?_ ?_)
      · intro _
        refine accounts_skip (.of_at fun hat'' => ih _ _ (hopened.follow hat'' ?_))
        exact Nat.le_trans hle (State.pos_le_after _ _)
      · exact fun _ => accounts_fail (fun _ => hopened.follow ht hle) (by simp)

theorem points_templateNode (hhead : s.rest.head? = some '\x60') :
  Points source s (templateNode context)
  := by
  refine .of_at fun hat => ?_
  have hopened : Opened source .openTemplate s.pos (s.after 1) :=
    hat.openedBy List.mem_cons_self hhead
  exact accounts_position (accounts_skip (points_templateFrom h _ _ _ hopened))

theorem points_parenNode :
  Points source s (parenNode context).run
  := by
  rw [parenNode]
  simp only [run_lift_bind]
  refine accounts_position (accounts_skip (points_skipTrivia.bind fun _ _ _ _ _ =>
    (h.expression _).attempt fun _ _ _ _ => ?_))
  simp only [run_lift_bind, run_lift, run_guard_bind]
  refine points_skipTrivia.bind fun _ _ _ _ _ => accounts_rest (.ite ?_ fun _ => .pure trivial)
  exact fun _ => accounts_skip points_storeFrom

theorem points_arrayItems (budget : Nat) (items : List ExprId) :
  Points source s (arrayItems context budget items).run
  := by
  induction budget generalizing s items with
  | zero => exact accounts_exhaust
  | succ budget ih =>
    rw [arrayItems]
    simp only [run_lift_bind, run_guard_bind, run_ite]
    refine points_skipTrivia.bind fun _ _ _ _ _ => accounts_rest (.ite ?_ fun _ => .ite ?_ ?_)
    · exact fun _ => accounts_skip (.pure trivial)
    · exact fun _ => accounts_skip (ih _)
    · refine fun _ => (h.region _ _).bind fun _ _ _ _ _ => accounts_rest (.ite ?_ ?_)
      · refine fun _ => accounts_skip (.ite ?_ ?_)
        · exact fun _ => ih _
        · exact fun _ => .pure trivial
      · exact fun _ => .pure trivial

theorem points_arrayNode :
  Points source s (arrayNode context).run
  := by
  rw [arrayNode]
  simp only [run_lift_bind]
  refine accounts_position (accounts_skip ((points_arrayItems h _ _).attempt fun _ _ _ _ => ?_))
  simp only [run_lift_bind, run_lift]
  exact points_storeFrom

theorem points_primary :
  Points source s (primary context).run
  := by
  rw [primary]
  simp only [run_lift_bind]
  refine accounts_position (accounts_rest ?_)
  split
  · exact .pure trivial
  · next c later hrest =>
    have hhead : s.rest.head? = some c := by rw [hrest, List.head?_cons]
    simp only [run_ite, run_lift, run_lift_bind, run_guard_bind]
    split
    · next hc => exact (points_stringNode (.inl hc) hhead).some
    split
    · next hc => exact (points_stringNode (.inr hc) hhead).some
    split
    · next hc => exact (points_templateNode h (hc ▸ hhead)).some
    split
    · exact points_parenNode h
    split
    · exact points_arrayNode h
    split
    · next hc => exact (points_braced h (hc ▸ hhead)).bind fun _ _ _ _ _ => points_storeFrom
    split
    · refine (accounts_element h).bind fun _ _ _ _ _ => .ite ?_ ?_
      · exact fun _ => points_storeFrom
      · exact fun _ => .pure trivial
    split
    · exact (points_discard points_takeWhile).bind fun _ _ _ _ _ => points_storeFrom
    split
    · refine accounts_takeWhile (.ite ?_ ?_)
      · exact fun _ => points_storeFrom
      · exact fun _ => .pure trivial
    · exact .pure trivial

/-! ### Member access, calls and indices -/

omit h in
theorem points_memberNode {object : Node} :
  Points source s (memberNode object).run
  := by
  have hname (s : State) : Points source s propertyName.run := by
    rw [propertyName]
    simp only [run_lift_bind, run_guard_bind]
    refine accounts_rest (accounts_take (accounts_rest (.ite ?_ ?_)))
    · exact fun _ => accounts_takeWhile (.pure trivial)
    · exact fun _ => .pure trivial
  refine (hname s).attempt fun _ _ _ _ => ?_
  simp only [run_lift_bind, run_lift]
  exact points_storeFrom

theorem points_callArguments (budget : Nat) (args : List ExprId) :
  Points source s (callArguments context budget args).run
  := by
  induction budget generalizing s args with
  | zero => exact accounts_exhaust
  | succ budget ih =>
    rw [callArguments]
    simp only [run_lift_bind, run_guard_bind, run_ite]
    refine points_skipTrivia.bind fun _ _ _ _ _ => accounts_rest (.ite ?_ ?_)
    · exact fun _ => accounts_skip (.pure trivial)
    · refine fun _ => (h.region _ _).bind fun _ _ _ _ _ => accounts_rest (.ite ?_ ?_)
      · refine fun _ => accounts_skip (.ite ?_ ?_)
        · exact fun _ => ih _
        · exact fun _ => .pure trivial
      · exact fun _ => .pure trivial

theorem points_callNode {callee : Node} :
  Points source s (callNode context callee).run
  := by
  rw [callNode]
  simp only [run_lift_bind]
  refine accounts_skip ((points_callArguments h _ _).attempt fun _ _ _ _ => ?_)
  simp only [run_lift_bind, run_lift]
  exact points_storeFrom

theorem points_indexNode {object : Node} :
  Points source s (indexNode context object).run
  := by
  rw [indexNode]
  simp only [run_lift_bind, run_lift, run_guard_bind, discard_bind]
  refine accounts_skip ((h.region _ _).bind fun _ _ _ _ _ => accounts_rest (.ite ?_ ?_))
  · exact fun _ => accounts_skip points_storeFrom
  · exact fun _ => .pure trivial

theorem points_optionalNode {node : Node} :
  Points source s (optionalNode context node).run
  := by
  rw [optionalNode]
  simp only [run_lift_bind, run_ite]
  refine accounts_rest (.ite (fun _ => points_callNode h) fun _ => .ite ?_ ?_)
  · exact fun _ => points_indexNode h
  · exact fun _ => points_memberNode

theorem points_suffix? {node : Node} :
  Points source s (suffix? context node).run
  := by
  have hlonger {x : Attempt Node} {t : State} (hx : Points source t x.run) :
      Points source t (do return some (← x) : Attempt (Option Node)).run :=
    hx.attempt fun _ _ _ _ => .pure trivial
  rw [suffix?]
  simp only [run_lift_bind, run_ite]
  apply accounts_rest
  split
  · exact accounts_skip (points_skipTrivia.bind fun _ _ _ _ _ => hlonger points_memberNode)
  split
  · exact accounts_skip (points_skipTrivia.bind fun _ _ _ _ _ => hlonger (points_optionalNode h))
  split
  · exact hlonger (points_callNode h)
  split
  · exact hlonger (points_indexNode h)
  split
  · exact accounts_skip (accounts_spanFrom (points_store.bind fun _ _ _ _ _ => .pure trivial))
  · exact .pure trivial

theorem points_suffixes (budget : Nat) (node : Node) :
  Points source s (suffixes context budget node).run
  := by
  induction budget generalizing s node with
  | zero => exact accounts_exhaust
  | succ budget ih =>
    rw [suffixes]
    simp only [run_lift_bind]
    refine points_skipTrivia.bind fun _ _ _ _ _ => (points_suffix? h).attempt fun found _ _ _ => ?_
    cases found with
    | some longer => exact ih longer
    | none => exact .pure trivial

theorem points_operand :
  Points source s (operand context).run
  := by
  rw [operand]
  simp only [run_lift_bind, run_ite]
  refine points_skipTrivia.bind fun _ _ _ _ _ => accounts_position (accounts_rest ?_)
  split
  · exact accounts_skip (points_skipTrivia.bind fun _ _ _ _ _ =>
      (h.operand _).attempt fun _ _ _ _ => points_store.some)
  split
  · exact accounts_skip (points_skipTrivia.bind fun _ _ _ _ _ =>
      (h.operand _).attempt fun _ _ _ _ => points_store.some)
  · exact (points_primary h).attempt fun _ _ _ _ => points_suffixes h _ _

/-! ### Logical operators and conditionals -/

theorem points_andChain (budget : Nat) (left : Node) :
  Points source s (andChain context budget left).run
  := by
  induction budget generalizing s left with
  | zero => exact accounts_exhaust
  | succ budget ih =>
    rw [andChain]
    simp only [run_lift_bind, run_ite]
    refine points_skipTrivia.bind fun _ _ _ _ _ => accounts_rest (.ite ?_ fun _ => .pure trivial)
    refine fun _ => accounts_skip (points_skipTrivia.bind fun _ _ _ _ _ =>
      (points_operand h).attempt fun _ _ _ _ => ?_)
    simp only [run_lift_bind]
    exact points_store.bind fun _ _ _ _ _ => ih _

theorem points_conjunction :
  Points source s (conjunction context).run
  := (points_operand h).attempt fun _ _ _ _ => points_andChain h _ _

theorem points_orChain (budget : Nat) (left : Node) :
  Points source s (orChain context budget left).run
  := by
  induction budget generalizing s left with
  | zero => exact accounts_exhaust
  | succ budget ih =>
    rw [orChain]
    simp only [run_lift_bind]
    refine points_skipTrivia.bind fun _ _ _ _ _ => accounts_rest ?_
    split
    · simp only [run_lift_bind]
      refine accounts_skip (points_skipTrivia.bind fun _ _ _ _ _ =>
        (points_conjunction h).attempt fun _ _ _ _ => ?_)
      simp only [run_lift_bind]
      exact points_store.bind fun _ _ _ _ _ => ih _
    · exact .pure trivial

theorem points_disjunction :
  Points source s (disjunction context).run
  := (points_conjunction h).attempt fun _ _ _ _ => points_orChain h _ _

theorem points_expression :
  Points source s (expression context).run
  := by
  refine (points_disjunction h).attempt fun _ _ _ _ => ?_
  simp only [run_lift_bind, run_ite]
  refine points_skipTrivia.bind fun _ _ _ _ _ => accounts_rest (.ite ?_ fun _ => .pure trivial)
  refine fun _ => accounts_skip (points_skipTrivia.bind fun _ _ _ _ _ =>
    (h.expression _).attempt fun _ _ _ _ => ?_)
  simp only [run_lift_bind, run_guard_bind]
  refine points_skipTrivia.bind fun _ _ _ _ _ => accounts_rest (.ite ?_ fun _ => .pure trivial)
  exact fun _ => accounts_skip (points_skipTrivia.bind fun _ _ _ _ _ =>
    (h.expression _).attempt fun _ _ _ _ => points_store.some)

/-! ### Regions -/

theorem points_wholeExpression {stops : List Char} :
  Points source s (wholeExpression context stops).run
  := by
  refine (points_expression h).attempt fun _ _ _ _ => ?_
  simp only [run_lift_bind, run_guard_bind]
  refine points_skipTrivia.bind fun _ _ _ _ _ => accounts_rest (.ite ?_ ?_)
  · exact fun _ => .pure trivial
  · exact fun _ => .pure trivial

theorem points_region {stops : List Char} :
  Points source s (region context stops)
  := by
  rw [region]
  refine points_skipTrivia.bind fun _ before _ _ _ => accounts_get ?_
  have hcode : Points source before (do
      discard (code context stops)
      store .verbatim (← spanFrom before.pos)) := by
    rw [discard_bind]
    exact (points_code h).bind fun _ _ _ _ _ => accounts_spanFrom points_store
  exact (points_wholeExpression h).orElse (fun _ => rfl) (fun _ => rfl) hcode

/-! ### All constructs -/

omit h in
/-- However deep constructs may lie in others, those inside account for their errors. -/
theorem accounts_nested (source : List Char) (dialect : Dialect) (budget : Nat) :
  (nested dialect budget).Accounts source
  := by
  induction budget with
  | zero =>
    constructor
    · exact fun _ _ => accounts_exhaust
    · exact fun _ => accounts_exhaust
    · exact fun _ _ => accounts_exhaust
    · exact fun _ => accounts_exhaust
    · exact fun _ => accounts_exhaust
  | succ budget ih =>
    have hcontext :
        (Context.mk dialect (budget + 1) (nested dialect budget)).nested.Accounts source := ih
    constructor
    · exact fun _ _ => points_code hcontext
    · exact fun _ => accounts_element hcontext
    · exact fun _ _ => points_region hcontext
    · exact fun _ => points_expression hcontext
    · exact fun _ => points_operand hcontext

/-! ### Sources -/

theorem points_script :
  Points source s (script context)
  := by
  have hline : Points source s interpreterLine :=
    accounts_rest (.ite (fun _ => points_skipLine) fun _ => .pure trivial)
  exact hline.bind fun _ _ _ _ _ => points_discard (points_code h)

omit h in
theorem points_frontmatter :
  Points source s frontmatter
  := by
  refine accounts_get ?_
  by_cases hfence :
      ['-', '-', '-'].isPrefixOf (s.after (s.rest.takeWhile isSpacing).length).rest = true
  · refine accounts_skipSpacing (accounts_rest ?_)
    rw [if_pos hfence]
    refine accounts_skip (points_skipPast.bind fun _ _ _ _ _ => .ite ?_ ?_)
    · exact fun _ => points_skipLine
    · exact fun _ => .pure trivial
  · -- The scan goes back to the start.
    refine .of_eq (t := s) (y := pure ⟨⟩) ?_ id (Nat.le_refl _) (.pure trivial)
    rw [skipSpacing, discard_bind, bind_apply, takeWhile_apply]
    simp only [bind_apply, rest_apply, ite_apply, if_neg hfence]
    rfl

theorem points_documentElement (hhead : s.rest.head? = some '<') :
  Points source s (documentElement context)
  := by
  rw [documentElement]
  refine .of_at fun hat => accounts_position (accounts_skip (accounts_takeWhile ?_))
  refine (accounts_tag h (hat.openedTag hhead)).bind fun _ _ _ _ _ => .ite ?_ fun _ => ?_
  · exact fun _ => .pure trivial
  · split
    · exact accounts_rest points_skip
    · exact .pure trivial

theorem points_documentTag (hhead : s.rest.head? = some '<') :
  Points source s (documentTag context)
  := by
  rw [documentTag]
  refine .of_at fun hat => accounts_rest ?_
  split
  · next later hrest =>
    have hopener : ['<', '!', '-', '-'] ∈ SourceError.Cause.openComment.openers := by
      simp [SourceError.Cause.openers]
    have hopened := hat.opened hopener hrest
    refine accounts_position (accounts_skip (points_skipPast.bind fun _ _ hat hle _ => .ite ?_ ?_))
    · exact fun _ => .pure trivial
    · exact fun _ => accounts_fail (fun _ => hopened.follow hat hle) (by simp)
  · refine .ite ?_ fun _ => .ite ?_ ?_
    · exact fun _ => accounts_skip (points_discard points_skipPast)
    · exact fun _ => points_documentElement h hhead
    · exact fun _ => points_skip
  · exact points_skip

theorem points_documentBraces (hhead : s.rest.head? = some '\x7b') :
  Points source s (documentBraces context)
  := by
  refine .ite (fun _ => points_braced h hhead) fun _ => accounts_rest (.ite ?_ ?_)
  · exact fun _ => accounts_skip (points_discard points_skipPast)
  · exact fun _ => points_skip

theorem points_document (budget : Nat) :
  Points source s (document context budget)
  := by
  induction budget generalizing s with
  | zero => exact accounts_exhaust
  | succ budget ih =>
    rw [document, discard_bind]
    refine accounts_takeWhile (accounts_rest ?_)
    split
    · exact .pure trivial
    · next c later hrest =>
      have hhead := congrArg List.head? hrest
      rw [List.head?_cons] at hhead
      obtain rfl | rfl := eq_of_text hrest
      · exact (points_documentTag h hhead).bind fun _ _ _ _ _ => ih
      · exact (points_documentBraces h hhead).bind fun _ _ _ _ _ => ih

theorem points_source :
  Points source s (Scan.source context)
  := by
  refine .ite (fun _ => ?_) fun _ => .ite (fun _ => points_document h _) fun _ => points_script h
  exact points_frontmatter.bind fun _ _ _ _ _ => points_document h _

end UtilityClasses.Scan
