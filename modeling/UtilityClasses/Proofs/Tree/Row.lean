import Mathlib.Tactic.Common
import UtilityClasses.Span

/-!
# Rows of spans

`Row start spans stop` says that the spans lie between two offsets, one after the other from
left to right. None of them ends before it starts, and neighbours may touch.
-/

namespace UtilityClasses

/-- The spans lie between two offsets, one after the other. -/
def Row (start : Nat) : List Span → Nat → Prop
  | [], stop => start ≤ stop
  | span :: later, stop =>
    start ≤ span.start ∧ span.start ≤ span.stop ∧ Row span.stop later stop

namespace Row

variable {start start' stop stop' : Nat} {spans spans' : List Span} {span : Span}

theorem le (h : Row start spans stop) :
  start ≤ stop
  := by
  induction spans generalizing start with
  | nil => apply h
  | cons span later ih =>
    obtain ⟨hstart, hspan, hlater⟩ := h
    apply Nat.le_trans hstart (Nat.le_trans hspan (ih hlater))

theorem mono_start (h : Row start spans stop) (hle : start' ≤ start) :
  Row start' spans stop
  := by
  cases spans with
  | nil => apply Nat.le_trans hle h
  | cons span later =>
    obtain ⟨hstart, hspan, hlater⟩ := h
    use Nat.le_trans hle hstart, hspan, hlater

theorem mono_stop (h : Row start spans stop) (hle : stop ≤ stop') :
  Row start spans stop'
  := by
  induction spans generalizing start with
  | nil => apply Nat.le_trans h hle
  | cons span later ih =>
    obtain ⟨hstart, hspan, hlater⟩ := h
    use hstart, hspan, ih hlater

/-- Two rows in a row. -/
theorem append_iff :
  Row start (spans ++ spans') stop ↔ ∃ middle, Row start spans middle ∧ Row middle spans' stop
  := by
  induction spans generalizing start with
  | nil =>
    constructor
    · intro h
      use start, Nat.le_refl start, h
    · rintro ⟨middle, hle, h⟩
      apply h.mono_start hle
  | cons span later ih =>
    simp only [List.cons_append, Row, ih]
    constructor
    · rintro ⟨hstart, hspan, middle, hlater, h⟩
      use middle, ⟨hstart, hspan, hlater⟩, h
    · rintro ⟨middle, ⟨hstart, hspan, hlater⟩, h⟩
      use hstart, hspan, middle, hlater, h

@[simp]
theorem singleton_iff :
  Row start [span] stop ↔ start ≤ span.start ∧ span.start ≤ span.stop ∧ span.stop ≤ stop
  := Iff.rfl

theorem sublist (h : Row start spans stop) (hsub : spans'.Sublist spans) :
  Row start spans' stop
  := by
  induction hsub generalizing start with
  | slnil => apply h
  | cons span _ ih =>
    obtain ⟨hstart, hspan, hlater⟩ := h
    apply ih (hlater.mono_start (Nat.le_trans hstart hspan))
  | cons_cons span _ ih =>
    obtain ⟨hstart, hspan, hlater⟩ := h
    use hstart, hspan, ih hlater

/-- Every span of a row lies between its ends. -/
theorem of_mem (h : Row start spans stop) (hmem : span ∈ spans) :
  start ≤ span.start ∧ span.start ≤ span.stop ∧ span.stop ≤ stop
  := singleton_iff.mp (h.sublist (List.singleton_sublist.mpr hmem))

/-- Every span of a row ends before the later ones start. -/
theorem pairwise (h : Row start spans stop) :
  spans.Pairwise fun a b => a.stop ≤ b.start
  := by
  induction spans generalizing start with
  | nil => apply List.Pairwise.nil
  | cons span later ih =>
    obtain ⟨-, -, hlater⟩ := h
    constructor
    · intro other hmem
      apply (hlater.of_mem hmem).1
    · apply ih hlater

/-- Spans between two offsets of which every one ends before the later ones start. -/
theorem of_pairwise (hle : start ≤ stop)
    (hspans : ∀ span ∈ spans, start ≤ span.start ∧ span.start ≤ span.stop ∧ span.stop ≤ stop)
    (hpairwise : spans.Pairwise fun a b => a.stop ≤ b.start) :
  Row start spans stop
  := by
  induction spans generalizing start with
  | nil => apply hle
  | cons span later ih =>
    rw [List.forall_mem_cons] at hspans
    obtain ⟨⟨hstart, hspan, hstop⟩, hlater⟩ := hspans
    obtain ⟨hbefore, hpairwise⟩ := List.pairwise_cons.mp hpairwise
    use hstart, hspan
    apply ih hstop _ hpairwise
    intro other hmem
    use hbefore other hmem, (hlater other hmem).2.1, (hlater other hmem).2.2

end Row

end UtilityClasses
