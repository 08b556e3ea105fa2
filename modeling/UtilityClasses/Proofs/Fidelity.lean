import UtilityClasses.Proofs.Scan.Text
import UtilityClasses.Proofs.WellFormed

/-!
# Markup is faithful to its source

Everything that is stored about a source is what stands in it at the span that is stored with
it: the names of elements and attributes, the literals, the texts of templates between their
holes, and the identifiers. What has been tried and given up has left nothing behind.
-/

namespace UtilityClasses

/-- At the start of a scan nothing has been found. -/
theorem Scan.faithful_initial (text : List Char) :
  Faithful text (State.initial text, [])
  where
  here := ⟨[], rfl, rfl⟩
  loose := by simp
  expr := by simp [State.initial]
  element := by simp [State.initial]

namespace Markup

variable {dialect : Dialect} {text : String} {markup : Markup}

/-- The elements and the expressions of a source are what stands in it. -/
structure Faithful (source : List Char) (markup : Markup) : Prop where
  element : ∀ element ∈ markup.elements, element.Faithful source markup.arena
  expr : ∀ expr ∈ markup.arena, expr.Faithful source markup.arena

/-- The expressions and the elements of every source that can be read stand in it. -/
theorem stands_of_parse (h : Markup.parse dialect text = .ok markup) :
  (∀ expr ∈ markup.arena, expr.Faithful text.toList markup.arena) ∧
    ∀ element ∈ markup.elements, element.Faithful text.toList markup.arena
  := by
  obtain ⟨found, hsteps, helements, harena⟩ := exists_steps_of_parse h
  have hfaithful := hsteps.faithful (Scan.formed_initial _) (Scan.faithful_initial _)
  rw [harena]
  apply And.intro hfaithful.expr
  intro element hmem
  apply hfaithful.element
  rw [helements, List.mem_mergeSort, Array.mem_toList_iff] at hmem
  apply hmem

/-- The markup of every source that can be read, in every dialect, is faithful to the source. -/
theorem faithful_of_parse (h : Markup.parse dialect text = .ok markup) :
  markup.Faithful text.toList
  where
  element := (stands_of_parse h).2
  expr := (stands_of_parse h).1

/-- A template with a hole that starts with a comment, in a call, in the attribute of an element
with another attribute whose value has no quotes. -/
theorem faithful_of_parse_template :
  ∃ markup, Markup.parse .astro "<a b=\x7bf(`c$\x7b/*\x7d*/ d \x7d`)\x7d e=f/g>" = .ok markup ∧
    markup.Faithful "<a b=\x7bf(`c$\x7b/*\x7d*/ d \x7d`)\x7d e=f/g>".toList
  := by
  have hok : (Markup.parse .astro "<a b=\x7bf(`c$\x7b/*\x7d*/ d \x7d`)\x7d e=f/g>").isOk = true := by
    decide +kernel
  obtain ⟨markup, hparse⟩ := exists_parse_of_isOk hok
  exact ⟨markup, hparse, faithful_of_parse hparse⟩

end Markup

end UtilityClasses
