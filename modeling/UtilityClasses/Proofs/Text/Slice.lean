import Mathlib.Tactic.Common
import UtilityClasses.Span
import UtilityClasses.Text.Offset

/-!
# Slices of a text

`Slice source span inside` says that a span is made of whole characters of a text, and that
`inside` are these characters.
-/

namespace UtilityClasses.Text

/-- The characters of a text between two byte offsets, both of which are at a character. -/
def Slice (source : List Char) (span : Span) (inside : List Char) : Prop :=
  ∃ before after, source = before ++ inside ++ after ∧ span.start = byteSize before ∧
    span.stop = span.start + byteSize inside

/-- A text that is not empty has bytes. -/
theorem byteSize_pos {text : List Char} (h : text ≠ []) :
  0 < byteSize text
  := by
  obtain ⟨c, rest, rfl⟩ := List.exists_cons_of_ne_nil h
  have hsize := c.utf8Size_pos
  rw [byteSize]
  omega

theorem length_le_byteSize (text : List Char) :
  text.length ≤ byteSize text
  := by
  induction text with
  | nil => exact Nat.le_refl 0
  | cons c rest ih =>
    have hsize := c.utf8Size_pos
    rw [byteSize, List.length_cons]
    omega

/-- A text in two ways made of two parts, of which the first are equally long. -/
theorem append_inj_of_byteSize {before after before' after' : List Char}
    (h : before ++ after = before' ++ after') (hsize : byteSize before = byteSize before') :
  before = before' ∧ after = after'
  := by
  have hcut := cutAt_byteSize_append before after
  rw [h, hsize, cutAt_byteSize_append, Option.some.injEq, Prod.mk.injEq] at hcut
  use hcut.1.symm, hcut.2.symm

/-- A text in two ways made of two parts, of which the first of one is the longer one. -/
theorem exists_append_of_byteSize_le {before after before' after' : List Char}
    (h : before ++ after = before' ++ after') (hsize : byteSize before ≤ byteSize before') :
  ∃ middle, before' = before ++ middle ∧ after = middle ++ after'
  := by
  obtain ⟨middle, hbefore, hafter⟩ | ⟨middle, hbefore, hafter⟩ := List.append_eq_append_iff.mp h
  · use middle, hbefore, hafter
  · have hmiddle : middle = [] := by
      by_contra hne
      have hpos := byteSize_pos hne
      rw [hbefore, byteSize_append] at hsize
      omega
    subst hmiddle
    use [], by simpa using hbefore.symm, by simpa using hafter.symm

namespace Slice

variable {source inside inside' : List Char} {span span' : Span} {c : Char} {stop : Nat}

/-- A slice ends in the text, and no earlier than it starts. -/
theorem le (h : Slice source span inside) :
  span.start ≤ span.stop ∧ span.stop ≤ byteSize source
  := by
  obtain ⟨before, after, rfl, hstart, hstop⟩ := h
  simp only [byteSize_append]
  omega

/-- A text that is not empty ends later than it starts. -/
theorem lt (h : Slice source span inside) (hne : inside ≠ []) :
  span.start < span.stop
  := by
  obtain ⟨before, after, rfl, hstart, hstop⟩ := h
  have hpos := byteSize_pos hne
  omega

/-- There is one text at a span. -/
theorem unique (h : Slice source span inside) (h' : Slice source span inside') :
  inside = inside'
  := by
  obtain ⟨before, after, rfl, hstart, hstop⟩ := h
  obtain ⟨before', after', hsource, hstart', hstop'⟩ := h'
  rw [List.append_assoc, List.append_assoc] at hsource
  obtain ⟨-, hsource⟩ := append_inj_of_byteSize hsource (hstart.symm.trans hstart')
  apply (append_inj_of_byteSize hsource (by omega)).1

/-- Slices that start at the same place, and are not empty, start with the same character. -/
theorem head_eq (h : Slice source span (c :: inside)) (h' : Slice source span' inside')
    (hstart : span.start = span'.start) (hne : inside' ≠ []) :
  inside'.head? = some c
  := by
  obtain ⟨before, after, rfl, hbefore, -⟩ := h
  obtain ⟨before', after', hsource, hbefore', -⟩ := h'
  obtain ⟨c', rest, rfl⟩ := List.exists_cons_of_ne_nil hne
  rw [List.append_assoc, List.append_assoc] at hsource
  obtain ⟨-, hsource⟩ := append_inj_of_byteSize hsource (by omega)
  rw [List.cons_append, List.cons_append, List.cons.injEq] at hsource
  rw [hsource.1, List.head?_cons]

/-- What is left of a slice without its first character. -/
theorem tail (h : Slice source span (c :: inside)) :
  Slice source ⟨span.start + c.utf8Size, span.stop⟩ inside
  := by
  obtain ⟨before, after, rfl, hstart, hstop⟩ := h
  refine ⟨before ++ [c], after, by simp, ?_, ?_⟩
  · simp [byteSize, hstart]
  · rw [hstop, byteSize, Nat.add_assoc]

/-- Two slices, the second of which starts where the first one ends. -/
theorem append (h : Slice source span inside) (h' : Slice source ⟨span.stop, stop⟩ inside') :
  Slice source ⟨span.start, stop⟩ (inside ++ inside')
  := by
  obtain ⟨before, after, rfl, hstart, hstop⟩ := h
  obtain ⟨before', after', hsource, hstart', hstop'⟩ := h'
  rw [List.append_assoc before'] at hsource
  obtain ⟨rfl, rfl⟩ := append_inj_of_byteSize hsource (by
    rw [← hstart', byteSize_append, hstop, hstart])
  refine ⟨before, after', by simp, hstart, ?_⟩
  rw [hstop', hstop, byteSize_append, Nat.add_assoc]

end Slice

end UtilityClasses.Text
