import Mathlib.Data.List.Perm.Subperm
import UtilityClasses.Proofs.Tree.WellFormed
import UtilityClasses.Selection

/-!
# Walks through an arena

In a well-formed arena every walk comes to an end, whatever bound it is given that is large
enough, and so does the way through any number of parentheses. `arena.exprs id` is what a walk
from `id` finds, and `arena.leaves id` is where the literals are that it finds.
-/

namespace UtilityClasses

/-- A function that finds something for every member of a list. -/
theorem exists_mapM_eq_some {α β : Type} {f : α → Option β} {P : α → β → Prop} {l : List α}
    (h : ∀ a ∈ l, ∃ b, f a = some b ∧ P a b) :
  ∃ found, l.mapM f = some found ∧ List.Forall₂ P l found
  := by
  induction l with
  | nil => use [], rfl, .nil
  | cons a l ih =>
    obtain ⟨b, hb, hab⟩ := h a List.mem_cons_self
    obtain ⟨found, hfound, hl⟩ := ih fun a ha => h a (List.mem_cons_of_mem _ ha)
    use b :: found, by simp [hb, hfound], .cons hab hl

/-- The lists that a function finds for the members of a list, one after the other. -/
theorem flatten_of_mapM {α β : Type} {f : α → Option (List β)} {l : List α}
    {found : List (List β)} (h : l.mapM f = some found) :
  found.flatten = l.flatMap fun a => (f a).getD []
  := by
  induction l generalizing found with
  | nil =>
    obtain rfl : [] = found := by simpa using h
    rfl
  | cons a l ih =>
    simp only [List.mapM_cons, Option.bind_eq_bind, Option.bind_eq_some_iff] at h
    obtain ⟨first, hfirst, later, hlater, heq⟩ := h
    obtain rfl : first :: later = found := Option.some.inj heq
    rw [List.flatten_cons, List.flatMap_cons, hfirst, ih hlater, Option.getD_some]

theorem flatten_map_eq_flatMap {α β γ : Type} {g : β → γ} {k : α → List γ} {l : List α}
    {found : List (List β)} (h : List.Forall₂ (fun a b => b.map g = k a) l found) :
  found.flatten.map g = l.flatMap k
  := by
  induction h with
  | nil => rfl
  | cons hab _ ih => rw [List.flatten_cons, List.map_append, List.flatMap_cons, hab, ih]

namespace Arena

variable {arena : Arena} {id : ExprId} {expr : Expr}

/-! ### Walks -/

/-- The expression `id` and everything below it, a parent before its children. -/
def exprs (arena : Arena) (id : ExprId) : List Expr :=
  match arena[id]? with
  | none => []
  | some expr =>
    expr :: expr.shape.children.flatMap fun child => if child < id then arena.exprs child else []
termination_by id

/-- A child in a well-formed arena is there. -/
theorem WellFormed.lt_size (h : arena.WellFormed) (hexpr : arena[id]? = some expr) {child : ExprId}
    (hchild : child ∈ expr.shape.children) :
  child < arena.size
  := by
  have hid := (Array.getElem?_eq_some_iff.mp hexpr).1
  apply Nat.lt_trans (h.earlier hexpr child hchild) hid

/-- What holds of every expression whose children it holds of. -/
theorem WellFormed.induct (h : arena.WellFormed) {P : ExprId → Prop}
    (step : ∀ {id expr}, arena[id]? = some expr → (∀ child ∈ expr.shape.children, P child) → P id)
    (hid : id < arena.size) :
  P id
  := by
  induction id using Nat.strongRecOn with
  | ind id ih =>
    have hexpr := Array.getElem?_eq_getElem hid
    apply step hexpr
    intro child hchild
    apply ih child (h.earlier hexpr child hchild) (h.lt_size hexpr hchild)

theorem exprs_eq (h : arena.WellFormed) (hexpr : arena[id]? = some expr) :
  arena.exprs id = expr :: expr.shape.children.flatMap arena.exprs
  := by
  rw [exprs, hexpr]
  simp only [List.cons.injEq, true_and]
  apply List.flatMap_congr
  intro child hchild
  rw [if_pos (h.earlier hexpr child hchild)]

/-- What is found below an expression is in the arena. -/
theorem exists_of_mem_exprs (h : arena.WellFormed) (hid : id < arena.size) :
  ∀ expr ∈ arena.exprs id, ∃ id : ExprId, arena[id]? = some expr
  := by
  apply h.induct _ hid
  intro id expr hexpr ih
  rw [exprs_eq h hexpr, List.forall_mem_cons]
  constructor
  · exact ⟨id, hexpr⟩
  · intro below hbelow
    obtain ⟨child, hchild, hmem⟩ := List.mem_flatMap.mp hbelow
    apply ih child hchild below hmem

/-- A walk with a bound that is large enough finds all there is. -/
theorem walk_eq_some (h : arena.WellFormed) (hid : id < arena.size) {bound : Nat} (depth : Nat)
    (hbound : id < bound) :
  ∃ nodes, arena.walk bound depth id = some nodes ∧ nodes.map Prod.snd = arena.exprs id
  := by
  induction bound generalizing id depth with
  | zero => simp at hbound
  | succ bound ih =>
    have hexpr := Array.getElem?_eq_getElem hid
    have hchildren : ∀ child ∈ arena[id].shape.children, ∃ nodes,
        arena.walk bound (depth + 1) child = some nodes ∧
          nodes.map Prod.snd = arena.exprs child := by
      intro child hchild
      have hlt := h.earlier hexpr child hchild
      apply ih (h.lt_size hexpr hchild) (depth + 1) (Nat.lt_of_lt_of_le hlt _)
      apply Nat.le_of_lt_succ hbound
    obtain ⟨below, hbelow, hall⟩ := exists_mapM_eq_some hchildren
    use (depth, arena[id]) :: below.flatten
    constructor
    · simp [walk, hexpr, hbelow]
    · rw [exprs_eq h hexpr, List.map_cons, flatten_map_eq_flatMap hall]

/-- The tree below an expression is found. -/
theorem tree_eq_some (h : arena.WellFormed) (hid : id < arena.size) :
  ∃ nodes, arena.tree id = some nodes ∧ nodes.map Prod.snd = arena.exprs id
  := walk_eq_some h hid 0 (Nat.lt_succ_of_lt hid)

/-- What is found below an expression does not change when another one is stored. -/
theorem exprs_push (h : arena.WellFormed) {new : Expr}
    (hnew : Arena.WellFormed (arena.push new)) (hid : id < arena.size) :
  Arena.exprs (arena.push new) id = arena.exprs id
  := by
  apply h.induct _ hid
  intro id expr hexpr ih
  rw [exprs_eq h hexpr, exprs_eq hnew (getElem?_push_of_some hexpr)]
  congr 1
  apply List.flatMap_congr ih

/-! ### Parentheses -/

theorem exists_wraps (h : arena.WellFormed) (hid : id < arena.size) :
  ∃ core, arena.Wraps id core
  := by
  apply h.induct _ hid
  intro id expr hexpr ih
  cases hparen : expr.shape.isParen with
  | false => use expr, .self hexpr hparen
  | true =>
    obtain ⟨shape, span⟩ := expr
    cases shape with
    | paren inner =>
      obtain ⟨core, hcore⟩ := ih inner (by simp [ExprShape.children])
      use core, .paren hexpr hcore
    | _ => simp [ExprShape.isParen] at hparen

/-- Parentheses are taken off if the bound is large enough. -/
theorem peelAtMost_of_wraps (h : arena.WellFormed) {core : Expr} (hwraps : arena.Wraps id core)
    (hexpr : arena[id]? = some expr) {bound : Nat} (hbound : id < bound) :
  Selection.peelAtMost arena bound expr = some core
  := by
  induction hwraps generalizing bound expr with
  | self hcore hparen =>
    obtain ⟨bound, rfl⟩ := Nat.exists_eq_succ_of_ne_zero (Nat.ne_of_gt (Nat.zero_lt_of_lt hbound))
    obtain rfl := Option.some.inj (hcore.symm.trans hexpr)
    rw [Selection.peelAtMost]
    split
    · next hshape => simp [ExprShape.isParen, hshape] at hparen
    · rfl
  | @paren id inner span core hid hinner ih =>
    obtain ⟨bound, rfl⟩ := Nat.exists_eq_succ_of_ne_zero (Nat.ne_of_gt (Nat.zero_lt_of_lt hbound))
    obtain rfl := Option.some.inj (hid.symm.trans hexpr)
    have hmem : inner ∈ (ExprShape.paren inner).children := by simp [ExprShape.children]
    have hlt : inner < id := h.earlier hid inner hmem
    have hget := Array.getElem?_eq_getElem (h.lt_size hid hmem)
    rw [Selection.peelAtMost]
    simp only [hget, Option.bind_eq_bind, Option.bind_some]
    apply ih hget (Nat.lt_of_lt_of_le hlt (Nat.le_of_lt_succ hbound))

theorem peel_of_wraps (h : arena.WellFormed) {core : Expr} (hwraps : arena.Wraps id core)
    (hexpr : arena[id]? = some expr) :
  Selection.peel arena expr = some core
  := by
  have hid := (Array.getElem?_eq_some_iff.mp hexpr).1
  apply peelAtMost_of_wraps h hwraps hexpr (Nat.lt_succ_of_lt hid)

/-- The expression `id` without its parentheses. -/
def core? (arena : Arena) (id : ExprId) : Option Expr := do
  Selection.peel arena (← arena[id]?)

theorem core?_of_wraps (h : arena.WellFormed) {core : Expr} (hwraps : arena.Wraps id core) :
  arena.core? id = some core
  := by
  cases hget : arena[id]? with
  | none => cases hwraps <;> simp_all
  | some expr => simp [core?, hget, peel_of_wraps h hwraps hget]

theorem core?_push (h : arena.WellFormed) {new : Expr}
    (hnew : Arena.WellFormed (arena.push new)) (hid : id < arena.size) :
  Arena.core? (arena.push new) id = arena.core? id
  := by
  obtain ⟨core, hcore⟩ := exists_wraps h hid
  rw [core?_of_wraps h hcore, core?_of_wraps hnew hcore.push]

/-! ### Leaves -/

/-- Where the literals stand at or below the expression `id`. -/
def leaves (arena : Arena) (id : ExprId) : List Span :=
  ((arena.exprs id).filter fun expr => expr.shape.isLiteral).map Expr.span

theorem leaves_eq (h : arena.WellFormed) (hexpr : arena[id]? = some expr) :
  arena.leaves id =
    (if expr.shape.isLiteral then [expr.span] else []) ++
      expr.shape.children.flatMap arena.leaves
  := by
  have hchildren : ((expr.shape.children.flatMap arena.exprs).filter fun expr =>
      expr.shape.isLiteral).map Expr.span = expr.shape.children.flatMap arena.leaves := by
    rw [List.filter_flatMap, List.map_flatMap]
    rfl
  rw [leaves, exprs_eq h hexpr, List.filter_cons]
  split
  · rw [List.map_cons, hchildren]
    rfl
  · rw [hchildren]
    rfl

theorem leaves_push (h : arena.WellFormed) {new : Expr}
    (hnew : Arena.WellFormed (arena.push new)) (hid : id < arena.size) :
  Arena.leaves (arena.push new) id = arena.leaves id
  := by
  rw [leaves, exprs_push h hnew hid, leaves]

end Arena

/-- A literal has nothing below it. -/
theorem ExprShape.children_of_isLiteral {shape : ExprShape} (h : shape.isLiteral = true) :
  shape.children = []
  := by
  cases shape with
  | str | ident | verbatim => rfl
  | template texts holes =>
    cases holes with
    | nil => rfl
    | cons => simp [isLiteral] at h
  | _ => simp [isLiteral] at h

namespace Arena

variable {arena : Arena} {id : ExprId} {expr core : Expr}

/-- A literal in parentheses is the only leaf. -/
theorem leaves_of_wraps (h : arena.WellFormed) (hwraps : arena.Wraps id core)
    (hliteral : core.shape.isLiteral = true) :
  arena.leaves id = [core.span]
  := by
  induction hwraps with
  | self hcore _ => simp [leaves_eq h hcore, hliteral, ExprShape.children_of_isLiteral hliteral]
  | paren hid _ ih => simp [leaves_eq h hid, ExprShape.isLiteral, ExprShape.children, ih hliteral]

/-- The children of an expression lie in it. -/
theorem WellFormed.within (h : arena.WellFormed) (hexpr : arena[id]? = some expr)
    {child : ExprId} (hchild : child ∈ expr.shape.children) :
  ∃ inner, arena[child]? = some inner ∧ expr.span.start ≤ inner.span.start ∧
    inner.span.stop ≤ expr.span.stop
  := by
  obtain ⟨spans, hspans⟩ := h.encloses hexpr
  have hmem := List.mem_map_of_mem (f := arena.span?) hchild
  rw [hspans.spans_eq] at hmem
  obtain ⟨span, hspan, heq⟩ := List.mem_map.mp hmem
  obtain ⟨inner, hinner, rfl⟩ := Option.map_eq_some_iff.mp heq.symm
  obtain ⟨hstart, -, hstop⟩ := hspans.row.of_mem hspan
  use inner, hinner, hstart, hstop

/-- The leaves of an expression lie in it. -/
theorem leaves_within (h : arena.WellFormed) (hid : id < arena.size) :
  ∀ expr, arena[id]? = some expr → ∀ leaf ∈ arena.leaves id,
    expr.span.start ≤ leaf.start ∧ leaf.stop ≤ expr.span.stop
  := by
  apply h.induct _ hid
  intro id expr hexpr ih _ hsome leaf hleaf
  obtain rfl := Option.some.inj (hexpr.symm.trans hsome)
  rw [leaves_eq h hexpr] at hleaf
  obtain hself | hbelow := List.mem_append.mp hleaf
  · split at hself
    · obtain rfl := List.mem_singleton.mp hself
      apply And.intro (Nat.le_refl _) (Nat.le_refl _)
    · simp at hself
  · obtain ⟨child, hchild, hleaf⟩ := List.mem_flatMap.mp hbelow
    obtain ⟨inner, hinner, hstart, hstop⟩ := h.within hexpr hchild
    obtain ⟨hstart', hstop'⟩ := ih child hchild inner hinner leaf hleaf
    apply And.intro (Nat.le_trans hstart hstart') (Nat.le_trans hstop' hstop)

end Arena

end UtilityClasses
