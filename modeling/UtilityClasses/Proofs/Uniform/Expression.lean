import UtilityClasses.Proofs.Uniform.Code
import UtilityClasses.Scan.Source

/-!
# Expressions in any company

Expressions are read in the same way whatever has been found before, and their nodes have other
numbers. So every construct is, however deep it lies in others.
-/

namespace UtilityClasses.Scan

variable {base : State} {context : Context}

/-- The lists of nodes are the same but for the numbers. -/
abbrev IdLists (base : State) (ids ids' : List ExprId) : Prop :=
  ids' = ids.map base.number

/-- The attempt stores a node at the end, or gives up. -/
abbrev FindsNode (base : State) (x y : Attempt Node) : Prop :=
  Lifts base x.run y.run (Option.Rel (Ids base))

/-! ### Operands -/

/-- A node is stored, and there is nothing left to try. -/
theorem finds_store {shape shape' : ExprShape} {start : Nat}
    (h : shape' = shape.renumber base.number) :
  Lifts base
    (do
      let span ← spanFrom start
      some <$> store shape span)
    (do
      let span ← spanFrom start
      some <$> store shape' span)
    (Option.Rel (Ids base))
  := uniform_spanFrom.bind fun _ => (lifts_store h).some

theorem lifts_stringNode {quote : Quote} {delimiter : Char} :
  Lifts base (stringNode quote delimiter) (stringNode quote delimiter) (Ids base)
  := uniform_stringLiteral.bind fun _ => lifts_store rfl

theorem lifts_templateFrom (h : context.nested.Uniform base) {start : Nat} (budget : Nat)
    (texts : List String) (holes : List ExprId) :
  Lifts base (templateFrom context start budget texts holes)
    (templateFrom context start budget texts (holes.map base.number)) (Ids base)
  := by
  induction budget generalizing texts holes with
  | zero => exact uniform_exhaust
  | succ budget ih =>
    rw [templateFrom, templateFrom]
    refine uniform_rest.bind fun _ => uniform_take.bind fun text => uniform_rest.bind fun ahead => ?_
    split
    · exact uniform_skip.bind fun _ => uniform_spanFrom.bind fun _ => lifts_store rfl
    · exact uniform_fail
    · refine uniform_skip.bind fun _ => (h.region _).bind ?_
      rintro hole _ rfl
      refine uniform_rest.bind fun later => Lifts.ite ?_ fun _ => uniform_fail
      intro _
      have happend : holes.map base.number ++ [(hole.renumber base.number).id] =
          (holes ++ [hole.id]).map base.number := by
        rw [List.map_append]
        rfl
      rw [happend]
      exact uniform_skip.bind fun _ => ih _ _

theorem lifts_templateNode (h : context.nested.Uniform base) :
  Lifts base (templateNode context) (templateNode context) (Ids base)
  := uniform_position.bind fun _ => uniform_skip.bind fun _ => lifts_templateFrom h _ [] []

theorem finds_parenNode (h : context.nested.Uniform base) :
  FindsNode base (parenNode context) (parenNode context)
  := by
  rw [FindsNode, parenNode]
  simp only [run_lift_bind]
  refine uniform_position.bind fun _ => uniform_skip.bind fun _ => uniform_skipTrivia.bind fun _ =>
    h.expression.attempt ?_
  rintro inner _ rfl
  simp only [run_lift_bind, run_lift, run_guard_bind]
  refine uniform_skipTrivia.bind fun _ => uniform_rest.bind fun later => Lifts.ite ?_ ?_
  · exact fun _ => uniform_skip.bind fun _ => finds_store rfl
  · exact fun _ => .pure .none

theorem lifts_arrayItems (h : context.nested.Uniform base) (budget : Nat) (items : List ExprId) :
  Lifts base (arrayItems context budget items).run
    (arrayItems context budget (items.map base.number)).run (Option.Rel (IdLists base))
  := by
  induction budget generalizing items with
  | zero => exact uniform_exhaust
  | succ budget ih =>
    rw [arrayItems, arrayItems]
    simp only [run_lift_bind, run_ite]
    refine uniform_skipTrivia.bind fun _ => uniform_rest.bind fun ahead => Lifts.ite ?_ fun _ =>
      Lifts.ite ?_ ?_
    · exact fun _ => uniform_skip.bind fun _ => .pure (.some rfl)
    · exact fun _ => uniform_skip.bind fun _ => ih items
    · intro _
      apply (h.region _).bind
      rintro item _ rfl
      have happend : items.map base.number ++ [(item.renumber base.number).id] =
          (items ++ [item.id]).map base.number := by
        rw [List.map_append]
        rfl
      simp only [run_lift_bind, run_guard_bind, run_ite, happend]
      refine uniform_rest.bind fun next => Lifts.ite ?_ ?_
      · refine fun _ => uniform_skip.bind fun _ => Lifts.ite ?_ ?_
        · exact fun _ => ih _
        · exact fun _ => .pure (.some rfl)
      · exact fun _ => .pure .none

theorem finds_arrayNode (h : context.nested.Uniform base) :
  FindsNode base (arrayNode context) (arrayNode context)
  := by
  rw [FindsNode, arrayNode]
  simp only [run_lift_bind]
  refine uniform_position.bind fun _ => uniform_skip.bind fun _ =>
    (lifts_arrayItems h _ []).attempt ?_
  rintro items _ rfl
  simp only [run_lift_bind, run_lift]
  exact finds_store rfl

theorem finds_primary (h : context.nested.Uniform base) :
  FindsNode base (primary context) (primary context)
  := by
  rw [FindsNode, primary]
  simp only [run_lift_bind]
  refine uniform_position.bind fun start => uniform_rest.bind fun ahead => ?_
  cases ahead with
  | nil => exact .pure .none
  | cons c later =>
    simp only [run_ite, run_lift, run_lift_bind, run_guard_bind]
    split
    · exact lifts_stringNode.some
    split
    · exact lifts_stringNode.some
    split
    · exact (lifts_templateNode h).some
    split
    · exact finds_parenNode h
    split
    · exact finds_arrayNode h
    split
    · exact (uniform_braced h).bind fun _ => finds_store rfl
    split
    · refine (uniform_element h).bind fun found => Lifts.ite ?_ ?_
      · exact fun _ => finds_store rfl
      · exact fun _ => .pure .none
    split
    · exact uniform_takeWhile.discard.bind fun _ => finds_store rfl
    split
    · refine uniform_takeWhile.bind fun name => Lifts.ite ?_ ?_
      · exact fun _ => finds_store rfl
      · exact fun _ => .pure .none
    · exact .pure .none

/-! ### Member access, calls and indices -/

theorem finds_propertyName :
  Lifts base propertyName.run propertyName.run (Option.Rel Eq)
  := by
  rw [propertyName]
  simp only [run_lift_bind, run_guard_bind]
  refine uniform_rest.bind fun ahead => uniform_take.bind fun mark => uniform_rest.bind fun later =>
    Lifts.ite ?_ ?_
  · exact fun _ => uniform_takeWhile.bind fun _ => .pure (.some rfl)
  · exact fun _ => .pure .none

variable {node : Node}

theorem finds_memberNode :
  FindsNode base (memberNode node) (memberNode (node.renumber base.number))
  := by
  rw [FindsNode, memberNode, memberNode]
  apply finds_propertyName.attempt
  rintro property _ rfl
  simp only [run_lift_bind, run_lift]
  exact finds_store rfl

theorem lifts_callArguments (h : context.nested.Uniform base) (budget : Nat)
    (args : List ExprId) :
  Lifts base (callArguments context budget args).run
    (callArguments context budget (args.map base.number)).run (Option.Rel (IdLists base))
  := by
  induction budget generalizing args with
  | zero => exact uniform_exhaust
  | succ budget ih =>
    rw [callArguments, callArguments]
    simp only [run_lift_bind, run_ite]
    refine uniform_skipTrivia.bind fun _ => uniform_rest.bind fun ahead => Lifts.ite ?_ ?_
    · exact fun _ => uniform_skip.bind fun _ => .pure (.some rfl)
    · intro _
      apply (h.region _).bind
      rintro arg _ rfl
      have happend : args.map base.number ++ [(arg.renumber base.number).id] =
          (args ++ [arg.id]).map base.number := by
        rw [List.map_append]
        rfl
      simp only [run_lift_bind, run_guard_bind, run_ite, happend]
      refine uniform_rest.bind fun next => Lifts.ite ?_ ?_
      · refine fun _ => uniform_skip.bind fun _ => Lifts.ite ?_ ?_
        · exact fun _ => ih _
        · exact fun _ => .pure (.some rfl)
      · exact fun _ => .pure .none

theorem finds_callNode (h : context.nested.Uniform base) :
  FindsNode base (callNode context node) (callNode context (node.renumber base.number))
  := by
  rw [FindsNode, callNode, callNode]
  simp only [run_lift_bind]
  refine uniform_skip.bind fun _ => (lifts_callArguments h _ []).attempt ?_
  rintro args _ rfl
  simp only [run_lift_bind, run_lift]
  exact finds_store rfl

theorem finds_indexNode (h : context.nested.Uniform base) :
  FindsNode base (indexNode context node) (indexNode context (node.renumber base.number))
  := by
  rw [FindsNode, indexNode, indexNode]
  simp only [run_lift_bind, run_lift, run_guard_bind, discard_bind]
  refine uniform_skip.bind fun _ => (h.region _).bind fun _ _ _ => uniform_rest.bind fun later =>
    Lifts.ite ?_ ?_
  · exact fun _ => uniform_skip.bind fun _ => finds_store rfl
  · exact fun _ => .pure .none

theorem finds_optionalNode (h : context.nested.Uniform base) :
  FindsNode base (optionalNode context node) (optionalNode context (node.renumber base.number))
  := by
  rw [FindsNode, optionalNode, optionalNode]
  simp only [run_lift_bind, run_ite]
  refine uniform_rest.bind fun ahead => Lifts.ite ?_ fun _ => Lifts.ite ?_ ?_
  · exact fun _ => finds_callNode h
  · exact fun _ => finds_indexNode h
  · exact fun _ => finds_memberNode

theorem lifts_suffix? (h : context.nested.Uniform base) :
  Lifts base (suffix? context node).run (suffix? context (node.renumber base.number)).run
    (Option.Rel (Option.Rel (Ids base)))
  := by
  have hsome {x y : Attempt Node} (hxy : FindsNode base x y) :
      Lifts base (x >>= fun longer => return some longer).run
        (y >>= fun longer => return some longer).run (Option.Rel (Option.Rel (Ids base))) :=
    hxy.attempt fun _ _ hR => .pure (.some (.some hR))
  rw [suffix?, suffix?]
  simp only [run_lift_bind, run_ite]
  refine uniform_rest.bind fun ahead => Lifts.ite ?_ fun _ => Lifts.ite ?_ fun _ =>
    Lifts.ite ?_ fun _ => Lifts.ite ?_ fun _ => Lifts.ite ?_ ?_
  · exact fun _ => uniform_skip.bind fun _ => uniform_skipTrivia.bind fun _ =>
      hsome finds_memberNode
  · exact fun _ => uniform_skip.bind fun _ => uniform_skipTrivia.bind fun _ =>
      hsome (finds_optionalNode h)
  · exact fun _ => hsome (finds_callNode h)
  · exact fun _ => hsome (finds_indexNode h)
  · refine fun _ => uniform_skip.bind fun _ => uniform_spanFrom.bind fun _ => ?_
    exact (lifts_store rfl).bind fun _ _ hR => .pure (.some (.some hR))
  · exact fun _ => .pure (.some .none)

theorem finds_suffixes (h : context.nested.Uniform base) (budget : Nat) (node : Node) :
  FindsNode base (suffixes context budget node)
    (suffixes context budget (node.renumber base.number))
  := by
  induction budget generalizing node with
  | zero => exact uniform_exhaust
  | succ budget ih =>
    rw [FindsNode, suffixes, suffixes]
    simp only [run_lift_bind]
    refine uniform_skipTrivia.bind fun _ => (lifts_suffix? h).attempt ?_
    intro found found' hfound
    cases hfound with
    | some hlonger =>
      subst hlonger
      apply ih
    | none => exact .pure (.some rfl)

theorem finds_operand (h : context.nested.Uniform base) :
  FindsNode base (operand context) (operand context)
  := by
  rw [FindsNode, operand]
  simp only [run_lift_bind, run_ite]
  refine uniform_skipTrivia.bind fun _ => uniform_position.bind fun start =>
    uniform_rest.bind fun ahead => Lifts.ite ?_ fun _ => Lifts.ite ?_ ?_
  · refine fun _ => uniform_skip.bind fun _ => uniform_skipTrivia.bind fun _ =>
      h.operand.attempt ?_
    rintro inner _ rfl
    exact (lifts_store rfl).some
  · refine fun _ => uniform_skip.bind fun _ => uniform_skipTrivia.bind fun _ =>
      h.operand.attempt ?_
    rintro inner _ rfl
    exact (lifts_store rfl).some
  · intro _
    apply (finds_primary h).attempt
    rintro node _ rfl
    exact finds_suffixes h _ node

/-! ### Logical operators and conditionals -/

theorem lifts_storeLogical {op : LogicalOp} {left right : Node} :
  Lifts base (storeLogical op left right)
    (storeLogical op (left.renumber base.number) (right.renumber base.number)) (Ids base)
  := lifts_store rfl

theorem finds_andChain (h : context.nested.Uniform base) (budget : Nat) (left : Node) :
  FindsNode base (andChain context budget left)
    (andChain context budget (left.renumber base.number))
  := by
  induction budget generalizing left with
  | zero => exact uniform_exhaust
  | succ budget ih =>
    rw [FindsNode, andChain, andChain]
    simp only [run_lift_bind, run_ite]
    refine uniform_skipTrivia.bind fun _ => uniform_rest.bind fun ahead => Lifts.ite ?_ ?_
    · refine fun _ => uniform_skip.bind fun _ => uniform_skipTrivia.bind fun _ =>
        (finds_operand h).attempt ?_
      rintro right _ rfl
      simp only [run_lift_bind]
      apply lifts_storeLogical.bind
      rintro node _ rfl
      apply ih
    · exact fun _ => .pure (.some rfl)

theorem finds_conjunction (h : context.nested.Uniform base) :
  FindsNode base (conjunction context) (conjunction context)
  := by
  rw [FindsNode, conjunction]
  apply (finds_operand h).attempt
  rintro left _ rfl
  exact finds_andChain h _ left

theorem finds_orChain (h : context.nested.Uniform base) (budget : Nat) (left : Node) :
  FindsNode base (orChain context budget left)
    (orChain context budget (left.renumber base.number))
  := by
  induction budget generalizing left with
  | zero => exact uniform_exhaust
  | succ budget ih =>
    rw [FindsNode, orChain, orChain]
    simp only [run_lift_bind]
    refine uniform_skipTrivia.bind fun _ => uniform_rest.bind fun ahead => ?_
    cases orOperator? ahead with
    | none => exact .pure (.some rfl)
    | some op =>
      simp only [run_lift_bind]
      refine uniform_skip.bind fun _ => uniform_skipTrivia.bind fun _ =>
        (finds_conjunction h).attempt ?_
      rintro right _ rfl
      simp only [run_lift_bind]
      apply lifts_storeLogical.bind
      rintro node _ rfl
      apply ih

theorem finds_disjunction (h : context.nested.Uniform base) :
  FindsNode base (disjunction context) (disjunction context)
  := by
  rw [FindsNode, disjunction]
  apply (finds_conjunction h).attempt
  rintro left _ rfl
  exact finds_orChain h _ left

theorem finds_expression (h : context.nested.Uniform base) :
  FindsNode base (expression context) (expression context)
  := by
  rw [FindsNode, expression]
  apply (finds_disjunction h).attempt
  rintro test _ rfl
  simp only [run_lift_bind, run_ite]
  refine uniform_skipTrivia.bind fun _ => uniform_rest.bind fun ahead => Lifts.ite ?_ ?_
  · refine fun _ => uniform_skip.bind fun _ => uniform_skipTrivia.bind fun _ =>
      h.expression.attempt ?_
    rintro consequent _ rfl
    simp only [run_lift_bind, run_guard_bind]
    refine uniform_skipTrivia.bind fun _ => uniform_rest.bind fun later => Lifts.ite ?_ ?_
    · refine fun _ => uniform_skip.bind fun _ => uniform_skipTrivia.bind fun _ =>
        h.expression.attempt ?_
      rintro alternate _ rfl
      exact (lifts_store rfl).some
    · exact fun _ => .pure .none
  · exact fun _ => .pure (.some rfl)

/-! ### Regions -/

theorem finds_wholeExpression (h : context.nested.Uniform base) {stops : List Char} :
  FindsNode base (wholeExpression context stops) (wholeExpression context stops)
  := by
  rw [FindsNode, wholeExpression]
  apply (finds_expression h).attempt
  rintro node _ rfl
  simp only [run_lift_bind, run_guard_bind]
  refine uniform_skipTrivia.bind fun _ => uniform_rest.bind fun ahead => Lifts.ite ?_ ?_
  · exact fun _ => .pure (.some rfl)
  · exact fun _ => .pure .none

theorem lifts_region (h : context.nested.Uniform base) {stops : List Char} :
  Lifts base (region context stops) (region context stops) (Ids base)
  := by
  rw [region]
  refine uniform_skipTrivia.bind fun _ => lifts_get.bind ?_
  rintro before _ rfl
  apply Lifts.bind (finds_wholeExpression h)
  intro found found' hfound
  cases hfound with
  | some hnode => exact .pure hnode
  | none =>
    apply lifts_set.bind
    intro _ _ _
    exact (uniform_code h).discard.bind fun _ => uniform_spanFrom.bind fun _ => lifts_store rfl

/-! ### Constructs in one another -/

theorem uniform_nested (base : State) (dialect : Dialect) (budget : Nat) :
  (nested dialect budget).Uniform base
  := by
  induction budget with
  | zero =>
    exact ⟨fun _ => uniform_exhaust, uniform_exhaust, fun _ => uniform_exhaust, uniform_exhaust,
      uniform_exhaust⟩
  | succ budget ih =>
    exact {
      code := fun _ => uniform_code ih
      element := uniform_element ih
      region := fun _ => lifts_region ih
      expression := finds_expression ih
      operand := finds_operand ih }

end UtilityClasses.Scan
