import Mathlib.Tactic.Common
import UtilityClasses.Scan.Source

/-!
# Ample contexts

A context is ample for a text if its budget is larger than the text is long. Inside a construct
of which a character has been passed, the context is ample again.
-/

namespace UtilityClasses.Scan

/-- The budget is larger than `count`, and the constructs inside others have one less. -/
structure Context.Ample (context : Context) (count : Nat) : Prop where
  lt_budget : count < context.budget
  nested_eq : context.nested = Scan.nested context.dialect (context.budget - 1)

/-- The scans of the constructs that are in a context. -/
def Context.scans (context : Context) : Nested where
  code := code context
  element := element context
  region := region context
  expression := expression context
  operand := operand context

namespace Context.Ample

variable {context : Context} {count count' : Nat}

theorem mono (h : context.Ample count) (hle : count' ≤ count) :
  context.Ample count'
  where
  lt_budget := Nat.lt_of_le_of_lt hle h.lt_budget
  nested_eq := h.nested_eq

/-- Behind a character, the constructs are those of an ample context. -/
theorem exists_scans (h : context.Ample count) (hlt : count' < count) :
  ∃ inner : Context, inner.Ample count' ∧ inner.dialect = context.dialect ∧
    context.nested = inner.scans
  := by
  have hbudget := h.lt_budget
  obtain ⟨budget, heq⟩ : ∃ budget, context.budget - 1 = budget + 1 :=
    Nat.exists_eq_add_one_of_ne_zero (by omega)
  use ⟨context.dialect, budget + 1, Scan.nested context.dialect budget⟩
  refine ⟨⟨?_, rfl⟩, rfl, ?_⟩
  · change count' < budget + 1
    omega
  · rw [h.nested_eq, heq]
    rfl

end Context.Ample

/-- The context for a text is ample for it. -/
theorem Context.ample_ofLength (dialect : Dialect) (length : Nat) :
  (Context.ofLength dialect length).Ample length
  where
  lt_budget := Nat.lt_succ_self length
  nested_eq := rfl

end UtilityClasses.Scan
