import UtilityClasses.Proofs.Document.Reading
import UtilityClasses.Proofs.Document.Simulation
import UtilityClasses.Proofs.ExactSplice

/-!
# Documents are prefixed once

What becomes of a document is the document with its class lists prefixed: it can be read again,
its elements simulate the old ones, and nothing in it changes a second time.
-/

namespace UtilityClasses

namespace Settings

variable {settings : Settings}

/-- Nothing is replaced under settings that cannot change anything. -/
theorem replacements_of_isNoop (hnoop : settings.isNoop = true)
    (haffix : settings.affix.isEmpty = false) (attr : Attribute) :
  settings.replacements attr = []
  := by
  have hattributes : settings.attributes = [] := by
    simpa [isNoop, haffix] using hnoop
  have htarget : settings.isTarget attr.name = false := by
    rw [isTarget, hattributes, List.contains_nil]
  rw [replacements, Selection.ofAttribute, htarget, if_neg Bool.false_ne_true, Option.getD_some]

end Settings

namespace Outcome

/-- A text that is left of a source that could be read: the source itself, if it stays the same,
or what it is changed into. -/
inductive Leaves (source : String) : Outcome → String → Prop
  | unchanged : Leaves source .unchanged source
  | changed (result : Spliced) : Leaves source (.changed result) result.code

variable {settings : Settings} {dialect : Dialect} {source : String}

/-- What is left of a document is the document with its new values. -/
theorem leaves_of_document (htotal : settings.Total) (haffix : settings.affix.isEmpty = false)
    (hdialect : dialect = .html ∨ dialect = .vue) {document : Document}
    (hfits : document.Fits dialect) (htext : document.text = source.toList) :
  (ofSource settings dialect source).Leaves source
    (String.ofList (document.revise settings.revision).text)
  := by
  have hparse : Markup.parse dialect source = .ok ⟨document.elements, #[]⟩ :=
    (Document.parse_eq_ok_iff hdialect).mpr ⟨document, hfits, htext, rfl⟩
  obtain ⟨edits, hrevised⟩ := Document.rewrites htotal document 0
  rw [htext] at hrevised
  -- without replacements the new document is the source
  have hsame : (document.elements.flatMap Element.attributes).flatMap settings.replacements = [] →
      String.ofList (document.revise settings.revision).text = source := by
    intro hnil
    rw [hnil] at hrevised
    rw [hrevised.unique (.copy 0 0 source.toList), String.ofList_toList]
  cases hnoop : settings.isNoop with
  | true =>
    rw [hsame, ofSource, hnoop, if_pos rfl]
    · apply Leaves.unchanged
    · apply List.flatMap_eq_nil_iff.mpr
      intro attr _
      apply Settings.replacements_of_isNoop hnoop haffix
  | false =>
    obtain ⟨replacements, hfound, -, -, hmakes, hsource⟩ := exists_makes htotal hnoop hparse
    obtain rfl : replacements =
        (document.elements.flatMap Element.attributes).flatMap settings.replacements :=
      Selection.eq_of_ofMarkup hfound
    rw [hsource]
    split
    · next hempty =>
      rw [hsame (List.isEmpty_iff.mp hempty)]
      apply Leaves.unchanged
    · rw [Replacement.inOrder_eq_self hrevised.row] at hmakes
      rw [← hmakes.unique hrevised, String.ofList_toList]
      apply Leaves.changed

/-- A source of which the class lists stand between quotes is left with a text that can be read
again. Its elements simulate those of the source, and it stays as it is. -/
theorem ofSource_simulates (affix : String) (attributes : List String)
    (isUtility : String → Bool) {markup : Markup} (hdialect : dialect = .html ∨ dialect = .vue)
    (haffix : Command.checkAffix affix = .ok ()) (hmark : affix.toList.head? ≠ some '!')
    (hparse : Markup.parse dialect source = .ok markup)
    (hquoted : ∀ element ∈ markup.elements, ∀ attr ∈ element.attributes, attr.name ∈ attributes →
      ∀ value ∈ attr.value, value.IsQuoted) :
  let settings : Settings := ⟨affix, attributes, Classifier.ofPredicate isUtility⟩
  ∃ code result, (ofSource settings dialect source).Leaves source code ∧
    Markup.parse dialect code = .ok result ∧
    List.Forall₂ (Element.Simulates settings) markup.elements result.elements ∧
    ofSource settings dialect code = .unchanged
  := by
  intro settings
  have hsteady : settings.Steady := Settings.steady_of_checkAffix _ _ haffix hmark
  have hne : settings.affix.isEmpty = false := (Command.of_checkAffix haffix).1
  obtain ⟨document, hfits, htext, rfl⟩ := (Document.parse_eq_ok_iff hdialect).mp hparse
  have hadmits : ∀ entry ∈ document.pieces, entry.2.Admits settings.revision := by
    apply hfits.admits hsteady
    intro element helement attr hattr htarget
    apply hquoted element helement attr hattr
    simpa [Settings.isTarget] using htarget
  have hleaves := leaves_of_document hsteady.total hne hdialect hfits htext
  have hagain : Markup.parse dialect (String.ofList (document.revise settings.revision).text) =
      .ok ⟨(document.revise settings.revision).elements, #[]⟩ := by
    apply (Document.parse_eq_ok_iff hdialect).mpr
    exact ⟨_, hfits.revise hadmits, String.toList_ofList.symm, rfl⟩
  have hsimulates := document.simulates hsteady.total
  refine ⟨_, _, hleaves, hagain, hsimulates, ?_⟩
  cases hnoop : settings.isNoop with
  | true => rw [ofSource, hnoop, if_pos rfl]
  | false =>
    obtain ⟨replacements, hfound, -, -, -, hsource⟩ := exists_makes hsteady.total hnoop hagain
    have hnil : replacements = [] := Selection.eq_nil_of_simulates hsteady hsimulates hfound
    rw [hsource, hnil, List.isEmpty_nil, if_pos rfl]

end Outcome

/-- A paragraph with a class list. -/
def Document.paragraph : Document where
  pieces := [([], .element {
    name := ['p']
    parts := [([' '], .valued "class".toList [] [] .single "m-1".toList)]
    ending := []
    selfClosing := false
    raw := [] })]
  trailing := "text".toList

theorem Document.paragraph_fits :
  Document.Fits .html paragraph
  where
  pieces := by
    refine ⟨by simp, ⟨⟨'p', rfl, rfl⟩, ?_, ?_, ⟨by simp [Scan.isSpacing], ?_, trivial⟩,
      by simp, rfl⟩,
      trivial⟩
    · rw [List.forall_mem_singleton]
      rfl
    · rintro _ ⟨⟩
      rfl
    apply Document.Part.Fits.valued
    · use by simp
      · simp [Scan.isAttributeNameChar, Scan.attributeNameEnds, Scan.isSpacing]
      · rintro _ ⟨⟩
        rfl
    · simp
    · simp
    · apply Document.ValueFits.quoted rfl
      simp
  trailing := by simp [paragraph, Scan.isTextChar]

/-- The class list of a paragraph. -/
theorem Outcome.ofSource_simulates_paragraph :
  ∃ code result,
    (ofSource ⟨"tw-", ["class"], Classifier.lexical⟩ .html "<p class='m-1'>text").Leaves
      "<p class='m-1'>text" code ∧
    Markup.parse .html code = .ok result ∧
    List.Forall₂ (Element.Simulates ⟨"tw-", ["class"], Classifier.lexical⟩)
      Document.paragraph.elements result.elements ∧
    ofSource ⟨"tw-", ["class"], Classifier.lexical⟩ .html code = .unchanged
  := by
  have hparse : Markup.parse .html "<p class='m-1'>text" =
      .ok ⟨Document.paragraph.elements, #[]⟩ := by
    apply (Document.parse_eq_ok_iff (.inl rfl)).mpr
    exact ⟨Document.paragraph, Document.paragraph_fits, rfl, rfl⟩
  apply ofSource_simulates "tw-" ["class"] Token.isUtility (.inl rfl) (by decide) (by decide)
    hparse
  intro element helement attr hattr _ value hvalue
  obtain rfl := List.mem_singleton.mp helement
  obtain rfl := List.mem_singleton.mp hattr
  obtain rfl := Option.some.inj hvalue
  simp [AttrValue.IsQuoted]

end UtilityClasses
