/-!
# Spans

A span is a range of byte offsets into a source text, its end excluded.
-/

namespace UtilityClasses

/-- The bytes from offset `start` up to, and without, offset `stop`. -/
structure Span where
  start : Nat
  stop : Nat
  deriving DecidableEq, Repr

namespace Span

/-- The number of bytes covered, as a 32-bit word: a span that ends before it starts wraps
around. -/
def length (span : Span) : Nat :=
  (UInt32.ofNat span.stop - UInt32.ofNat span.start).toNat

/-- Whether the span ends where it starts. -/
def isEmpty (span : Span) : Bool :=
  span.start == span.stop

/-- Whether the other span starts no earlier and ends no later. -/
def contains (span other : Span) : Bool :=
  span.start ≤ other.start && other.stop ≤ span.stop

/-- The span from the earlier start to the later end. -/
def merge (span other : Span) : Span :=
  ⟨min span.start other.start, max span.stop other.stop⟩

/-- Whether a span comes first when spans are ordered by start, and then by end. -/
def precedes (span other : Span) : Bool :=
  span.start < other.start || (span.start == other.start && span.stop < other.stop)

/-- The two offsets with two dots between them. -/
def render (span : Span) : String :=
  toString span.start ++ ".." ++ toString span.stop

end Span

end UtilityClasses
