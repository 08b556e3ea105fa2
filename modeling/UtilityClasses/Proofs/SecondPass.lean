import UtilityClasses.Proofs.Cursor.Source
import UtilityClasses.Proofs.Eligible
import UtilityClasses.Proofs.Term.Simulation

/-!
# Second passes

Every source is refused, or stays as it is, or changes. It stays as it is exactly if it can be read
and all of its class lists have been prefixed. What a first pass leaves need not be such a source:
a class list that loses its line break joins two lines, and code that stood on the first of them
may be read in another way than before.
-/

namespace UtilityClasses

/-- A class list stays the same exactly if it has been prefixed. -/
theorem Settings.Steady.renewed_eq_self_iff {settings : Settings} (h : settings.Steady)
    {classes : String} :
  settings.renewed classes = classes ↔ ∃ bare, settings.renewed bare = classes
  := by
  constructor
  · intro hsame
    exact ⟨classes, hsame⟩
  · rintro ⟨bare, rfl⟩
    apply h.renewed_renewed

/-- Every class list of a source has been prefixed. -/
def Markup.Settled (settings : Settings) (markup : Markup) : Prop :=
  ∀ slot, markup.Eligible settings slot → ∃ bare, settings.renewed bare = slot.classes

/-- With fewer attributes to look into there are fewer class lists. -/
theorem Markup.Settled.mono {affix : String} {classify : Classifier} {fewer more : List String}
    {markup : Markup} (h : markup.Settled ⟨affix, more, classify⟩) (hsub : fewer ⊆ more) :
  markup.Settled ⟨affix, fewer, classify⟩
  := by
  rintro slot ⟨element, helement, attr, hattr, htarget, hvalue⟩
  apply h slot
  exact ⟨element, helement, attr, hattr, hsub htarget, hvalue⟩

theorem Settings.Steady.settled_iff {settings : Settings} (h : settings.Steady)
    {markup : Markup} :
  markup.Settled settings ↔ ∀ slot, markup.Eligible settings slot → ¬ slot.Changes settings
  := by
  apply forall₂_congr
  intro slot _
  rw [Slot.Changes, not_not, h.renewed_eq_self_iff]

namespace Outcome

variable {settings : Settings} {dialect : Dialect} {source : String}

/-- A source that can be read changes exactly if one of its class lists does. -/
theorem ofSource_of_parse (htotal : settings.Total) (hnoop : settings.isNoop = false)
    {markup : Markup} (hparse : Markup.parse dialect source = .ok markup) :
  (ofSource settings dialect source = .unchanged ∧
      ∀ slot, markup.Eligible settings slot → ¬ slot.Changes settings) ∨
    ∃ result, ofSource settings dialect source = .changed result ∧
      ∃ slot, markup.Eligible settings slot ∧ slot.Changes settings
  := by
  obtain ⟨harena, helements⟩ := Markup.formed_of_parse hparse
  obtain ⟨slots, hslots, hall⟩ := Selection.ofMarkup_finds htotal harena helements
  obtain ⟨replacements, hfound, -, -, -, hsource⟩ := exists_makes htotal hnoop hparse
  obtain rfl := Option.some.inj (hslots.symm.trans hfound)
  rw [hsource, List.isEmpty_map]
  cases slots with
  | nil =>
    refine .inl ⟨rfl, ?_⟩
    intro slot helig hchanges
    apply List.not_mem_nil ((hall slot).mpr ⟨helig, hchanges⟩)
  | cons slot slots =>
    refine .inr ⟨_, rfl, slot, ?_⟩
    apply (hall slot).mp List.mem_cons_self

/-- A source that cannot be read is refused. -/
theorem ofSource_of_error (hnoop : settings.isNoop = false) {error : SourceError}
    (hparse : Markup.parse dialect source = .error (.error error)) :
  ofSource settings dialect source = .refused error
  := by
  simp only [ofSource, hnoop, hparse, Bool.false_eq_true, if_false]

/-- A source that stays as it is can be read, and all of its class lists have been prefixed. -/
theorem exists_settled_of_unchanged (hsteady : settings.Steady) (hnoop : settings.isNoop = false)
    (h : ofSource settings dialect source = .unchanged) :
  ∃ markup, Markup.parse dialect source = .ok markup ∧ markup.Settled settings
  := by
  obtain ⟨markup, -, hparse⟩ | ⟨error, -, hparse⟩ := Cursor.parse_agrees dialect source
  · obtain ⟨-, hnone⟩ | ⟨result, hsource, -⟩ := ofSource_of_parse hsteady.total hnoop hparse
    · exact ⟨markup, hparse, hsteady.settled_iff.mpr hnone⟩
    · rw [h] at hsource
      cases hsource
  · rw [ofSource_of_error hnoop hparse] at h
    cases h

/-- A source of which all class lists have been prefixed stays as it is. -/
theorem ofSource_of_settled (hsteady : settings.Steady) (hnoop : settings.isNoop = false)
    {markup : Markup} (hparse : Markup.parse dialect source = .ok markup)
    (hsettled : markup.Settled settings) :
  ofSource settings dialect source = .unchanged
  := by
  obtain ⟨hsource, -⟩ | ⟨result, -, slot, helig, hchanges⟩ :=
    ofSource_of_parse hsteady.total hnoop hparse
  · exact hsource
  · exact absurd hchanges (hsteady.settled_iff.mp hsettled slot helig)

/-- A source stays as it is exactly if it can be read and all of its class lists have been
prefixed. -/
theorem ofSource_eq_unchanged_iff (hsteady : settings.Steady) (hnoop : settings.isNoop = false) :
  ofSource settings dialect source = .unchanged ↔
    ∃ markup, Markup.parse dialect source = .ok markup ∧ markup.Settled settings
  := by
  constructor
  · exact exists_settled_of_unchanged hsteady hnoop
  · rintro ⟨markup, hparse, hsettled⟩
    exact ofSource_of_settled hsteady hnoop hparse hsettled

/-- A source that has been prefixed stays as it is. -/
theorem ofSource_eq_unchanged_iff_prefixed :
  let settings : Settings := ⟨"tw-", ["class"], Classifier.ofPredicate Token.isUtility⟩
  let source := "<p class='tw-flex open'>"
  ofSource settings .html source = .unchanged ∧
    ∃ markup, Markup.parse .html source = .ok markup ∧ markup.Settled settings
  := by
  intro settings source
  have hsteady : settings.Steady :=
    Settings.steady_of_checkAffix ["class"] Token.isUtility (by decide) (by decide)
  have hsource : ofSource settings .html source = .unchanged := by decide +kernel
  exact ⟨hsource, (ofSource_eq_unchanged_iff hsteady rfl).mp hsource⟩

/-- Once the class list stands on one line, the line has a regular expression from the slash after
`i++` to the one in the title, and the quote after it is left open. -/
example :
  let settings : Settings := ⟨"tw-", defaultAttributes, Classifier.lexical⟩
  let source := "i++ / 2; x = <div className=\"p-4\nm-2\" title='/' />"
  let first := "i++ / 2; x = <div className=\"tw-p-4 tw-m-2\" title='/' />"
  (ofSource settings .jsx source).code "" = first ∧
    ofSource settings .jsx first = .refused ⟨.openString, ⟨52, 56⟩⟩
  := by
  decide +kernel

/-- The same with a string after the element: the second pass finds an element in it. -/
example :
  let settings : Settings := ⟨"tw-", defaultAttributes, Classifier.lexical⟩
  let source := "i++ / 2; x = <a tw='p-4\nm-2' title='/' />; y = ';<b tw=\"m-1\"/>//'"
  let first := "i++ / 2; x = <a tw='tw-p-4 tw-m-2' title='/' />; y = ';<b tw=\"m-1\"/>//'"
  let second := "i++ / 2; x = <a tw='tw-p-4 tw-m-2' title='/' />; y = ';<b tw=\"tw-m-1\"/>//'"
  (ofSource settings .jsx source).code "" = first ∧ (ofSource settings .jsx first).code "" = second
  := by
  decide +kernel

/-- A source that stays as it is under a set of attributes does so under each smaller one. -/
theorem ofSource_eq_unchanged_of_subset {affix : String} {classify : Classifier}
    {fewer more : List String}
    (hsteady : ∀ attributes, Settings.Steady ⟨affix, attributes, classify⟩)
    (hsub : fewer ⊆ more)
    (h : ofSource ⟨affix, more, classify⟩ dialect source = .unchanged) :
  ofSource ⟨affix, fewer, classify⟩ dialect source = .unchanged
  := by
  cases hfewer : Settings.isNoop ⟨affix, fewer, classify⟩ with
  | true => rw [ofSource, hfewer, if_pos rfl]
  | false =>
    have hmore : Settings.isNoop ⟨affix, more, classify⟩ = false := by
      simp only [Settings.isNoop, Bool.or_eq_false_iff] at hfewer ⊢
      refine ⟨hfewer.1, ?_⟩
      cases more with
      | nil => simp [List.subset_nil.mp hsub] at hfewer
      | cons => rfl
    obtain ⟨markup, hparse, hsettled⟩ := exists_settled_of_unchanged (hsteady more) hmore h
    exact ofSource_of_settled (hsteady fewer) hfewer hparse (hsettled.mono hsub)

end Outcome

end UtilityClasses
