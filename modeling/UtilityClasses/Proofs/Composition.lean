import UtilityClasses.Proofs.Simulation

/-!
# Attribute sets compose

A document in which the class lists stand between quotes may be prefixed one set of attributes
at a time. The second pass reads what the first has left, where every value stands in its old
place, and a class list that both sets name stays as the first pass has left it.
-/

namespace UtilityClasses

namespace Settings

variable {affix : String} {classify : Classifier} {first second both : List String}

/-- The new values under one set of attributes and then under another are those under both. -/
theorem revision_revision (hsteady : Steady ⟨affix, first, classify⟩)
    (hboth : ∀ name, name ∈ both ↔ name ∈ first ∨ name ∈ second) (name value : List Char) :
  revision ⟨affix, second, classify⟩ name (revision ⟨affix, first, classify⟩ name value) =
    revision ⟨affix, both, classify⟩ name value
  := by
  have hmem := hboth (String.ofList name)
  obtain ⟨new, hnew⟩ := hsteady.total.exists_affixed (String.ofList value)
  have hagain := hsteady.again hnew
  simp only [Settings.affixed] at hnew hagain
  simp only [revision, isTarget, List.contains_iff_mem, Settings.affixed, hnew, Option.getD_some]
  by_cases hfirst : String.ofList name ∈ first
  · rw [if_pos hfirst, if_pos (hmem.mpr (.inl hfirst)), String.ofList_toList, hagain,
      Option.getD_some, ite_self]
  · rw [if_neg hfirst]
    by_cases hsecond : String.ofList name ∈ second
    · rw [if_pos hsecond, if_pos (hmem.mpr (.inr hsecond)), hnew, Option.getD_some]
    · rw [if_neg hsecond, if_neg (by simpa [hmem] using ⟨hfirst, hsecond⟩)]

end Settings

namespace Outcome

variable {dialect : Dialect} {source : String}

/-- What two passes over a document leave is what one pass leaves. -/
theorem leaves_leaves_of_document {affix : String} {classify : Classifier}
    {first second both : List String} (hdialect : dialect = .html ∨ dialect = .vue)
    (haffix : affix.isEmpty = false) (hsteady : Settings.Steady ⟨affix, first, classify⟩)
    (hboth : ∀ name, name ∈ both ↔ name ∈ first ∨ name ∈ second) {document : Document}
    (hfits : document.Fits dialect) (htext : document.text = source.toList)
    (hquoted : ∀ element ∈ document.elements, ∀ attr ∈ element.attributes, attr.name ∈ first →
      ∀ value ∈ attr.value, value.IsQuoted) :
  ∃ middle, (ofSource ⟨affix, first, classify⟩ dialect source).Leaves source middle ∧
    (ofSource ⟨affix, second, classify⟩ dialect middle).Leaves middle
      (String.ofList (document.revise (Settings.revision ⟨affix, both, classify⟩)).text)
  := by
  have hadmits : ∀ entry ∈ document.pieces,
      entry.2.Admits (Settings.revision ⟨affix, first, classify⟩) := by
    apply hfits.admits hsteady
    intro element helement attr hattr htarget
    apply hquoted element helement attr hattr
    simpa [Settings.isTarget] using htarget
  have hnew : Settings.revision ⟨affix, both, classify⟩ = fun name value =>
      Settings.revision ⟨affix, second, classify⟩ name
        (Settings.revision ⟨affix, first, classify⟩ name value) := by
    funext name value
    symm
    apply Settings.revision_revision hsteady hboth
  have htwice : document.revise (Settings.revision ⟨affix, both, classify⟩) =
      (document.revise (Settings.revision ⟨affix, first, classify⟩)).revise
        (Settings.revision ⟨affix, second, classify⟩) := by
    rw [hnew, Document.revise_revise]
  refine ⟨_, leaves_of_document hsteady.total haffix hdialect hfits htext, ?_⟩
  rw [htwice]
  -- the second pass reads the document with its new values
  apply leaves_of_document _ haffix hdialect (hfits.revise hadmits) String.toList_ofList.symm
  exact hsteady.total

/-- A source of which the class lists stand between quotes is left with one and the same text
whether two sets of attributes are prefixed at once, or one after the other in either order. -/
theorem ofSource_union (affix : String) (first second both : List String)
    (isUtility : String → Bool) {markup : Markup} (hdialect : dialect = .html ∨ dialect = .vue)
    (haffix : Command.checkAffix affix = .ok ()) (hmark : affix.toList.head? ≠ some '!')
    (hboth : ∀ name, name ∈ both ↔ name ∈ first ∨ name ∈ second)
    (hparse : Markup.parse dialect source = .ok markup)
    (hquoted : ∀ element ∈ markup.elements, ∀ attr ∈ element.attributes, attr.name ∈ both →
      ∀ value ∈ attr.value, value.IsQuoted) :
  let settings : List String → Settings := fun attributes =>
    ⟨affix, attributes, Classifier.ofPredicate isUtility⟩
  ∃ code, (ofSource (settings both) dialect source).Leaves source code ∧
    (∃ middle, (ofSource (settings first) dialect source).Leaves source middle ∧
      (ofSource (settings second) dialect middle).Leaves middle code) ∧
    (∃ middle, (ofSource (settings second) dialect source).Leaves source middle ∧
      (ofSource (settings first) dialect middle).Leaves middle code)
  := by
  intro settings
  have hsteady : ∀ attributes, (settings attributes).Steady := fun attributes =>
    Settings.steady_of_checkAffix attributes isUtility haffix hmark
  have hne : affix.isEmpty = false := (Command.of_checkAffix haffix).1
  obtain ⟨document, hfits, htext, rfl⟩ := (Document.parse_eq_ok_iff hdialect).mp hparse
  refine ⟨_, leaves_of_document (hsteady both).total hne hdialect hfits htext, ?_, ?_⟩
  · apply leaves_leaves_of_document hdialect hne (hsteady first) hboth hfits htext
    intro element helement attr hattr hfirst
    apply hquoted element helement attr hattr ((hboth _).mpr (.inl hfirst))
  · apply leaves_leaves_of_document hdialect hne (hsteady second) _ hfits htext
    · intro element helement attr hattr hsecond
      apply hquoted element helement attr hattr ((hboth _).mpr (.inr hsecond))
    · intro name
      rw [hboth, or_comm]

end Outcome

/-- A paragraph with two class lists. -/
def Markup.twoLists : Markup where
  elements := [{
    name := "p"
    span := ⟨0, 30⟩
    attributes := [
      ⟨"class", ⟨3, 8⟩, some (.literal ⟨.single, "m-1", ⟨9, 14⟩⟩), ⟨3, 14⟩⟩,
      ⟨"tw", ⟨15, 17⟩, some (.literal ⟨.single, "flex card", ⟨18, 29⟩⟩), ⟨15, 29⟩⟩] }]
  arena := #[]

/-- One of the two class lists of a paragraph is named by both sets of attributes. -/
theorem Outcome.ofSource_union_overlap :
  let settings : List String → Settings := fun attributes =>
    ⟨"tw-", attributes, Classifier.lexical⟩
  let source := "<p class='m-1' tw='flex card'>"
  ∃ code, (ofSource (settings ["class", "tw"]) .html source).Leaves source code ∧
    (∃ middle, (ofSource (settings ["class"]) .html source).Leaves source middle ∧
      (ofSource (settings ["class", "tw"]) .html middle).Leaves middle code) ∧
    (∃ middle, (ofSource (settings ["class", "tw"]) .html source).Leaves source middle ∧
      (ofSource (settings ["class"]) .html middle).Leaves middle code)
  := by
  have hparse : Markup.parse .html "<p class='m-1' tw='flex card'>" = .ok Markup.twoLists := by
    decide +kernel
  apply ofSource_union "tw-" ["class"] ["class", "tw"] ["class", "tw"] Token.isUtility (.inl rfl)
    (by decide) (by decide) _ hparse
  · intro element helement attr hattr _ value hvalue
    obtain rfl := List.mem_singleton.mp helement
    obtain rfl | hattr := List.mem_cons.mp hattr
    · obtain rfl := Option.some.inj hvalue
      simp [AttrValue.IsQuoted]
    · obtain rfl := List.mem_singleton.mp hattr
      obtain rfl := Option.some.inj hvalue
      simp [AttrValue.IsQuoted]
  · intro name
    simp

end UtilityClasses
