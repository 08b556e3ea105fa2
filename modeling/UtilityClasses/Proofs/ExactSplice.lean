import UtilityClasses.Outcome
import UtilityClasses.Proofs.Fidelity
import UtilityClasses.Proofs.Scan.Sites
import UtilityClasses.Proofs.Selection
import UtilityClasses.Proofs.WellFormed

/-!
# Sources are spliced exactly

Every replacement that is selected in a source is made, and nothing else changes. The spans of
the replacements lie apart, each in the value of a target attribute, because the sites of a
source that can be read lie apart.
-/

namespace UtilityClasses

open Text (Slice)

/-! ### Sites and values of a source -/

namespace Scan

theorem sited_initial (text : List Char) :
  Sited (State.initial text, [])
  where
  apart := List.Pairwise.nil
  marks := by simp

end Scan

namespace Markup

variable {dialect : Dialect} {text : String} {markup : Markup}

/-- The sites of a source that can be read lie apart. -/
theorem sites_apart_of_parse (h : Markup.parse dialect text = .ok markup) :
  (markup.elements.flatMap (Element.sites markup.arena)).Pairwise Span.Apart
  := by
  obtain ⟨found, hsteps, helements, harena⟩ := exists_steps_of_parse h
  have hsited := hsteps.sited (Scan.formed_initial _) (Scan.nesting_initial _)
    (Scan.sited_initial _)
  have hperm : markup.elements.Perm found.elements.toList := by
    rw [helements]
    apply List.mergeSort_perm
  apply pairwise_apart_of_subperm hsited.apart
  rw [harena, Scan.sites, List.flatMap_nil, List.append_nil]
  apply (hperm.flatMap_right _).subperm

end Markup

/-! ### Replacements of a source -/

/-- What becomes of a source that can be read: its replacements are found and made. -/
theorem Outcome.exists_makes {settings : Settings} (htotal : settings.Total)
    {dialect : Dialect} {source : String} {markup : Markup} (hnoop : settings.isNoop = false)
    (hparse : Markup.parse dialect source = .ok markup) :
  ∃ replacements, Selection.ofMarkup settings markup = some replacements ∧
    (replacements.map Replacement.span).Pairwise Span.Apart ∧
    (∀ replacement ∈ replacements, replacement.Changes source.toList ∧
      ∃ element ∈ markup.elements, ∃ attr ∈ element.attributes,
        Selection.InTarget settings attr replacement) ∧
    Replacement.Makes 0 0 source.toList (Replacement.inOrder replacements)
      (Replacement.splice source replacements).code.toList
      (Replacement.splice source replacements).edits ∧
    Outcome.ofSource settings dialect source =
      if replacements.isEmpty then .unchanged
      else .changed (Replacement.splice source replacements)
  := by
  obtain ⟨harena, helements⟩ := Markup.formed_of_parse hparse
  obtain ⟨hexprs, hvalues⟩ := Markup.stands_of_parse hparse
  obtain ⟨replacements, hfound, hspans, hall⟩ :=
    Selection.ofMarkup_selects htotal harena helements hexprs hvalues
  have hapart := pairwise_apart_of_subperm (Markup.sites_apart_of_parse hparse) hspans
  have hmakes := Replacement.splice_makes source hapart fun r hmem => (hall r hmem).1
  have hperm : (Replacement.inOrder replacements).Perm replacements := List.mergeSort_perm _ _
  have hlength : (Replacement.splice source replacements).edits.length = replacements.length := by
    rw [← hperm.length_eq]
    simpa using congrArg List.length hmakes.edits_eq
  have hempty : (Replacement.splice source replacements).edits.isEmpty = replacements.isEmpty := by
    rw [Bool.eq_iff_iff]
    simp [← List.length_eq_zero_iff, hlength]
  refine ⟨replacements, hfound, hapart, hall, hmakes, ?_⟩
  simp only [Outcome.ofSource, hnoop, hparse, Outcome.ofMarkup, hfound, hempty,
    Bool.false_eq_true, if_false]

/-- The replacements for a source that can be read have an answer. They lie apart and in the
values of target attributes, all of them are made, and the rest of the source is copied; if
there are none, the source stays as it is. -/
theorem Outcome.ofSource_exact (affix : String) (attributes : List String)
    (isUtility : String → Bool) {dialect : Dialect} {source : String} {markup : Markup}
    (hnoop : Settings.isNoop ⟨affix, attributes, Classifier.ofPredicate isUtility⟩ = false)
    (hparse : Markup.parse dialect source = .ok markup) :
  let settings : Settings := ⟨affix, attributes, Classifier.ofPredicate isUtility⟩
  ∃ replacements, Selection.ofMarkup settings markup = some replacements ∧
    (replacements.map Replacement.span).Pairwise Span.Apart ∧
    (∀ replacement ∈ replacements, replacement.Changes source.toList ∧
      ∃ element ∈ markup.elements, ∃ attr ∈ element.attributes,
        Selection.InTarget settings attr replacement) ∧
    (replacements = [] → Outcome.ofSource settings dialect source = .unchanged) ∧
    (replacements ≠ [] → ∃ result, Outcome.ofSource settings dialect source = .changed result ∧
      Replacement.Makes 0 0 source.toList (Replacement.inOrder replacements)
        result.code.toList result.edits ∧
      result.edits.map (fun edit => (edit.target, edit.replaced)) =
        (Replacement.inOrder replacements).map fun replacement =>
          (replacement.target, replacement.span))
  := by
  intro settings
  have htotal : settings.Total := fun _ => rfl
  obtain ⟨replacements, hfound, hapart, hall, hmakes, hsource⟩ :=
    exists_makes htotal hnoop hparse
  refine ⟨replacements, hfound, hapart, hall, ?_, ?_⟩
  · rintro rfl
    simpa using hsource
  · intro hne
    use Replacement.splice source replacements
    refine ⟨?_, hmakes, hmakes.edits_eq⟩
    rw [hsource, if_neg]
    simpa using hne

/-- A class list in an element that stands in the attribute of another element. -/
theorem Outcome.ofSource_exact_nested :
  ∃ markup replacements,
    Markup.parse .jsx "<a b=\x7bc && <i class='m-1'/>\x7d/>" = .ok markup ∧
    Selection.ofMarkup ⟨"tw-", ["class"], Classifier.ofPredicate fun _ => true⟩ markup =
      some replacements ∧
    (replacements.map Replacement.span).Pairwise Span.Apart
  := by
  have hok : (Markup.parse .jsx "<a b=\x7bc && <i class='m-1'/>\x7d/>").isOk = true := by
    decide +kernel
  obtain ⟨markup, hparse⟩ := Markup.exists_parse_of_isOk hok
  obtain ⟨replacements, hfound, hapart, -⟩ :=
    Outcome.ofSource_exact "tw-" ["class"] (fun _ => true) (by decide) hparse
  exact ⟨markup, replacements, hparse, hfound, hapart⟩

end UtilityClasses
