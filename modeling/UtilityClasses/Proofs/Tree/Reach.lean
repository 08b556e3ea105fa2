import UtilityClasses.Proofs.Tree.Walk

/-!
# Ways through an arena

`arena.Reaches root id` says that a way down from the expression `root` leads to the expression
`id`, with one constructor for each kind of step. `arena.Opens id core` says that on this way
there are only parentheses. In a well-formed arena these are the expressions that a walk finds,
and those that are left when parentheses are taken off.
-/

namespace UtilityClasses.Arena

variable {arena : Arena} {root id child : ExprId} {expr core : Expr}

/-- The expressions at or below the expression `root`. -/
inductive Reaches (arena : Arena) (root : ExprId) : ExprId → Prop
  | self : Reaches arena root root
  | hole {id hole : ExprId} {texts : List String} {holes : List ExprId} {span : Span}
      (h : Reaches arena root id) (hexpr : arena[id]? = some ⟨.template texts holes, span⟩)
      (hhole : hole ∈ holes) : Reaches arena root hole
  | object {id object : ExprId} {property : String} {span : Span} (h : Reaches arena root id)
      (hexpr : arena[id]? = some ⟨.member object property, span⟩) : Reaches arena root object
  | callee {id callee : ExprId} {args : List ExprId} {span : Span} (h : Reaches arena root id)
      (hexpr : arena[id]? = some ⟨.call callee args, span⟩) : Reaches arena root callee
  | argument {id callee arg : ExprId} {args : List ExprId} {span : Span}
      (h : Reaches arena root id) (hexpr : arena[id]? = some ⟨.call callee args, span⟩)
      (harg : arg ∈ args) : Reaches arena root arg
  | left {id left right : ExprId} {op : LogicalOp} {span : Span} (h : Reaches arena root id)
      (hexpr : arena[id]? = some ⟨.logical op left right, span⟩) : Reaches arena root left
  | right {id left right : ExprId} {op : LogicalOp} {span : Span} (h : Reaches arena root id)
      (hexpr : arena[id]? = some ⟨.logical op left right, span⟩) : Reaches arena root right
  | test {id test consequent alternate : ExprId} {span : Span} (h : Reaches arena root id)
      (hexpr : arena[id]? = some ⟨.conditional test consequent alternate, span⟩) :
      Reaches arena root test
  | consequent {id test consequent alternate : ExprId} {span : Span}
      (h : Reaches arena root id)
      (hexpr : arena[id]? = some ⟨.conditional test consequent alternate, span⟩) :
      Reaches arena root consequent
  | alternate {id test consequent alternate : ExprId} {span : Span}
      (h : Reaches arena root id)
      (hexpr : arena[id]? = some ⟨.conditional test consequent alternate, span⟩) :
      Reaches arena root alternate
  | item {id item : ExprId} {items : List ExprId} {span : Span} (h : Reaches arena root id)
      (hexpr : arena[id]? = some ⟨.array items, span⟩) (hitem : item ∈ items) :
      Reaches arena root item
  | spread {id inner : ExprId} {span : Span} (h : Reaches arena root id)
      (hexpr : arena[id]? = some ⟨.spread inner, span⟩) : Reaches arena root inner
  | paren {id inner : ExprId} {span : Span} (h : Reaches arena root id)
      (hexpr : arena[id]? = some ⟨.paren inner, span⟩) : Reaches arena root inner

/-- The expression `core` is the expression `id` without some of its parentheses. -/
inductive Opens (arena : Arena) : ExprId → ExprId → Prop
  | self (id : ExprId) : Opens arena id id
  | paren {id inner core : ExprId} {span : Span}
      (hexpr : arena[id]? = some ⟨.paren inner, span⟩) (h : Opens arena inner core) :
      Opens arena id core

namespace Reaches

/-- Every child is reached by one of the steps. -/
theorem step (h : arena.Reaches root id) (hexpr : arena[id]? = some expr)
    (hchild : child ∈ expr.shape.children) :
  arena.Reaches root child
  := by
  obtain ⟨shape, span⟩ := expr
  cases shape with
  | str | ident | verbatim => simp [ExprShape.children] at hchild
  | template => apply h.hole hexpr hchild
  | member =>
    obtain rfl := List.mem_singleton.mp hchild
    apply h.object hexpr
  | call =>
    obtain rfl | hchild := List.mem_cons.mp hchild
    · apply h.callee hexpr
    · apply h.argument hexpr hchild
  | logical =>
    simp only [ExprShape.children, List.mem_cons, List.not_mem_nil, or_false] at hchild
    obtain rfl | rfl := hchild
    · apply h.left hexpr
    · apply h.right hexpr
  | conditional =>
    simp only [ExprShape.children, List.mem_cons, List.not_mem_nil, or_false] at hchild
    obtain rfl | rfl | rfl := hchild
    · apply h.test hexpr
    · apply h.consequent hexpr
    · apply h.alternate hexpr
  | array => apply h.item hexpr hchild
  | spread =>
    obtain rfl := List.mem_singleton.mp hchild
    apply h.spread hexpr
  | paren =>
    obtain rfl := List.mem_singleton.mp hchild
    apply h.paren hexpr

/-- What holds of an expression and is handed on to children holds of all that is reached. -/
theorem induct {P : ExprId → Prop} (h : arena.Reaches root id) (hroot : P root)
    (hstep : ∀ {id child : ExprId} {expr : Expr}, P id → arena[id]? = some expr →
      child ∈ expr.shape.children → P child) :
  P id
  := by
  induction h with
  | self => apply hroot
  | hole _ hexpr hhole ih => apply hstep ih hexpr hhole
  | argument _ hexpr harg ih => apply hstep ih hexpr (List.mem_cons_of_mem _ harg)
  | item _ hexpr hitem ih => apply hstep ih hexpr hitem
  | object _ hexpr ih | callee _ hexpr ih | left _ hexpr ih | right _ hexpr ih | test _ hexpr ih
  | consequent _ hexpr ih | alternate _ hexpr ih | spread _ hexpr ih | paren _ hexpr ih =>
    apply hstep ih hexpr
    simp [ExprShape.children]

theorem trans {inner : ExprId} (h : arena.Reaches root inner) (h' : arena.Reaches inner id) :
  arena.Reaches root id
  := h'.induct h step

/-- What is reached is there. -/
theorem lt_size (h : arena.WellFormed) (hroot : root < arena.size)
    (hreaches : arena.Reaches root id) :
  id < arena.size
  := hreaches.induct hroot fun _ hexpr hchild => h.lt_size hexpr hchild

/-- What is reached is the root, or it is reached from a child of the root. -/
theorem cases_child (h : arena.Reaches root id) :
  id = root ∨ ∃ expr child, arena[root]? = some expr ∧ child ∈ expr.shape.children ∧
    arena.Reaches child id
  := by
  apply h.induct (Or.inl rfl)
  rintro id child expr (rfl | ⟨top, first, htop, hfirst, hreaches⟩) hexpr hchild
  · exact Or.inr ⟨expr, child, hexpr, hchild, .self⟩
  · exact Or.inr ⟨top, first, htop, hfirst, hreaches.step hexpr hchild⟩

end Reaches

/-- A walk finds what is reached, and nothing else. -/
theorem mem_exprs_iff (h : arena.WellFormed) (hroot : root < arena.size) :
  expr ∈ arena.exprs root ↔ ∃ id, arena.Reaches root id ∧ arena[id]? = some expr
  := by
  constructor
  · revert expr
    apply h.induct _ hroot
    intro root top htop ih expr hmem
    rw [exprs_eq h htop, List.mem_cons] at hmem
    obtain rfl | hmem := hmem
    · exact ⟨root, .self, htop⟩
    · obtain ⟨child, hchild, hmem⟩ := List.mem_flatMap.mp hmem
      obtain ⟨id, hreaches, hexpr⟩ := ih child hchild hmem
      have hstep : arena.Reaches root child := Reaches.step .self htop hchild
      exact ⟨id, hstep.trans hreaches, hexpr⟩
  · rintro ⟨id, hreaches, hexpr⟩
    revert id
    apply h.induct _ hroot
    intro root top htop ih id hreaches hexpr
    rw [exprs_eq h htop, List.mem_cons]
    obtain rfl | ⟨top', child, htop', hchild, hreaches⟩ := hreaches.cases_child
    · apply Or.inl (Option.some.inj (hexpr.symm.trans htop))
    · obtain rfl := Option.some.inj (htop'.symm.trans htop)
      apply Or.inr (List.mem_flatMap.mpr ⟨child, hchild, ih child hchild id hreaches hexpr⟩)

/-- What is inside all parentheses is what is left when they are taken off. -/
theorem Wraps.exists_opens (h : arena.Wraps id core) :
  ∃ child, arena.Opens id child ∧ arena[child]? = some core ∧ core.shape.isParen = false
  := by
  induction h with
  | self hexpr hparen => exact ⟨_, .self _, hexpr, hparen⟩
  | paren hexpr _ ih =>
    obtain ⟨child, hopens, hcore⟩ := ih
    exact ⟨child, .paren hexpr hopens, hcore⟩

/-- Two ways through all parentheses lead to the same expression. -/
theorem Opens.unique {child' : ExprId} {expr' : Expr} (h : arena.Opens id child)
    (h' : arena.Opens id child') (hexpr : arena[child]? = some expr)
    (hexpr' : arena[child']? = some expr') (hparen : expr.shape.isParen = false)
    (hparen' : expr'.shape.isParen = false) :
  child = child'
  := by
  induction h with
  | self =>
    cases h' with
    | self => rfl
    | paren hself _ =>
      obtain rfl := Option.some.inj (hexpr.symm.trans hself)
      simp [ExprShape.isParen] at hparen
  | paren hself _ ih =>
    cases h' with
    | self =>
      obtain rfl := Option.some.inj (hexpr'.symm.trans hself)
      simp [ExprShape.isParen] at hparen'
    | paren hself' h' =>
      have heq := Option.some.inj (hself.symm.trans hself')
      simp only [Expr.mk.injEq, ExprShape.paren.injEq] at heq
      obtain ⟨rfl, -⟩ := heq
      apply ih h' hexpr

end UtilityClasses.Arena
