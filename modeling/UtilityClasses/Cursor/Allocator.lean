import UtilityClasses.Cursor.State

/-!
# Ways to store expressions

An expression is found again by its index in the arena, and an index has 32 bits.  So an arena
cannot hold any number of expressions.  A way to store them in an arena of limited capacity leaves
open what is done when there is no room for an expression, so whatever does not depend on it never
comes there.
-/

namespace UtilityClasses.Cursor

/-- A way to store expressions. -/
structure Allocator where
  store : ExprShape → Span → Reading Scan.Node

namespace Allocator

/-- Stores any number of expressions. -/
abbrev unbounded : Allocator where
  store := Cursor.store

/-- Stores expressions as long as there are fewer than `capacity`.  If there are not, `full` is
done instead. -/
def within (capacity : Nat) (full : Reading Scan.Node) : Allocator where
  store shape span := do
    if (← get).arena.size < capacity then Cursor.store shape span else full

/-- The largest number of 32 bits. -/
def maxIndex : Nat :=
  4294967295

/-- Stores expressions as long as their indices have 32 bits. -/
def indexed (full : Reading Scan.Node) : Allocator :=
  within (maxIndex + 1) full

end Allocator

end UtilityClasses.Cursor
