import Mathlib.Tactic.Common
import UtilityClasses.Tree.Expr

/-!
# Parentheses

`arena.Wraps id expr` says that the expression `id` is `expr`, which is not in parentheses
itself, inside any number of parentheses.
-/

namespace UtilityClasses

/-- The shape of a string, or of a template without holes. -/
def ExprShape.isLiteral : ExprShape → Bool
  | .str _ _ | .template _ [] => true
  | _ => false

/-- The shape of an expression in parentheses. -/
def ExprShape.isParen : ExprShape → Bool
  | .paren _ => true
  | _ => false

/-- The expression `id` is `expr` inside any number of parentheses. -/
inductive Arena.Wraps (arena : Arena) : ExprId → Expr → Prop
  | self {id : ExprId} {expr : Expr} (h : arena[id]? = some expr)
      (hparen : expr.shape.isParen = false) : Wraps arena id expr
  | paren {id inner : ExprId} {span : Span} {expr : Expr}
      (h : arena[id]? = some ⟨.paren inner, span⟩) (hinner : Wraps arena inner expr) :
      Wraps arena id expr

/-- The expression `id` is something else than a literal inside any number of parentheses. -/
def Arena.WrapsOther (arena : Arena) (id : ExprId) : Prop :=
  ∃ expr, arena.Wraps id expr ∧ expr.shape.isLiteral = false

namespace Arena

variable {arena : Arena} {id : ExprId} {expr expr' new : Expr}

/-- What is stored stays where it is. -/
theorem getElem?_push_of_some (h : arena[id]? = some expr) :
  (arena.push new)[id]? = some expr
  := by
  have hlt := (Array.getElem?_eq_some_iff.mp h).1
  rw [Array.getElem?_push, if_neg (Nat.ne_of_lt hlt), h]

theorem Wraps.push (h : arena.Wraps id expr) :
  Arena.Wraps (arena.push new) id expr
  := by
  induction h with
  | self h hparen => apply Wraps.self (getElem?_push_of_some h) hparen
  | paren h _ ih => apply Wraps.paren (getElem?_push_of_some h) ih

/-- There is only one expression inside the parentheses. -/
theorem Wraps.unique (h : arena.Wraps id expr) (h' : arena.Wraps id expr') :
  expr = expr'
  := by
  induction h with
  | self h hparen =>
    cases h' with
    | self h' _ => apply Option.some.inj (h.symm.trans h')
    | paren h' _ =>
      obtain rfl := Option.some.inj (h.symm.trans h')
      simp [ExprShape.isParen] at hparen
  | paren h _ ih =>
    cases h' with
    | self h' hparen =>
      obtain rfl := Option.some.inj (h.symm.trans h')
      simp [ExprShape.isParen] at hparen
    | paren h' hinner =>
      have heq := Option.some.inj (h.symm.trans h')
      simp only [Expr.mk.injEq, ExprShape.paren.injEq] at heq
      obtain ⟨rfl, -⟩ := heq
      apply ih hinner

/-- The expression inside the parentheses is in the arena. -/
theorem Wraps.exists_getElem? (h : arena.Wraps id expr) :
  ∃ core : ExprId, arena[core]? = some expr
  := by
  induction h with
  | self h _ => exact ⟨_, h⟩
  | paren _ _ ih => apply ih

theorem WrapsOther.push (h : arena.WrapsOther id) :
  Arena.WrapsOther (arena.push new) id
  := by
  obtain ⟨expr, hwraps, hliteral⟩ := h
  use expr, hwraps.push, hliteral

/-- An expression that has just been stored, and is neither in parentheses nor a literal. -/
theorem wrapsOther_push_self (hparen : new.shape.isParen = false)
    (hliteral : new.shape.isLiteral = false) :
  Arena.WrapsOther (arena.push new) arena.size
  := by
  use new, .self (by simp) hparen, hliteral

end Arena

end UtilityClasses
