import UtilityClasses.Proofs.ClassList
import UtilityClasses.Proofs.Eligible
import UtilityClasses.Proofs.Term.Lexeme

/-!
# The line feeds of a rewritten source

A class list is put back with single spaces between its tokens, so a rewritten source never has a
line feed that the source does not have. It lacks those that stood in the class lists that are
replaced, and no others.
-/

namespace UtilityClasses

open Text (Slice byteSize)

/-! ### New class lists have no line feeds -/

/-- The only blanks in a prefixed class list are spaces. -/
theorem ClassList.eq_space_of_mem_affixed {affix : String} {isUtility : String → Bool}
    (haffix : Command.checkAffix affix = .ok ()) {classes new : String}
    (h : affixed affix (Classifier.ofPredicate isUtility) classes = some new) {c : Char}
    (hc : c ∈ new.toList) (hblank : Text.isBlank c = true) :
  c = ' '
  := by
  obtain ⟨hne, hall⟩ := Command.of_checkAffix haffix
  rw [affixed_eq hne, Option.some_inj] at h
  subst h
  rw [String.toList_ofList] at hc
  obtain hspace | ⟨token, hmem, hc⟩ := Text.mem_intercalate hc
  · exact hspace
  · obtain ⟨word, hword, rfl⟩ := List.mem_map.mp hmem
    have hsolid : Text.isBlank c = false := by
      obtain hc | hc := mem_prefixed hc
      · exact (hall c hc).1
      · exact ((Text.of_mem_words hword).2 c hc).1
    rw [hblank] at hsolid
    cases hsolid

theorem Literal.lineFeed_notMem_spellChar (quote c : Char) :
  '\n' ∉ spellChar quote c
  := by
  rw [spellChar]
  split_ifs with hbackslash hfeed hreturn hline hparagraph hdelimiter hcontrol
  any_goals simp
  · exact Ne.symm hfeed
  · intro hmem
    have hdigits := hexadecimal_isAlphanum c.toNat (List.mem_range.mpr (lt_of_isControl hcontrol))
    have hletter := List.all_eq_true.mp hdigits _ hmem
    simp at hletter
  · exact Ne.symm hfeed

theorem Literal.lineFeed_notMem_inCode (quote : Quote) (value : String) :
  '\n' ∉ (inCode quote value).toList
  := by
  have hquote : '\n' ≠ quote.char?.getD '"' := by cases quote <;> decide
  simp [inCode, spell, hquote, lineFeed_notMem_spellChar]

theorem Literal.lineFeed_notMem_inAttribute (quote : Quote) {value : String}
    (h : '\n' ∉ value.toList) :
  '\n' ∉ (inAttribute quote value).toList
  := by
  cases quote <;> simp [inAttribute, Quote.char?, h]

/-- A text without line feeds has none in any style. -/
theorem Style.lineFeed_notMem_write (style : Style) {text : String} (h : '\n' ∉ text.toList) :
  '\n' ∉ (style.write text).toList
  := by
  cases style with
  | value quote => exact Literal.lineFeed_notMem_inAttribute quote h
  | code quote => exact Literal.lineFeed_notMem_inCode quote text
  | container =>
    rw [write, Literal.asAttribute]
    split_ifs
    · exact Literal.lineFeed_notMem_inAttribute _ h
    · exact Literal.lineFeed_notMem_inAttribute _ h
    · simp [Literal.lineFeed_notMem_inCode]

/-! ### Counting -/

/-- A character that does not occur in the new texts occurs where it did, but not in what is
replaced. -/
theorem Replacement.Makes.count_eq {source passed text code : List Char} {copied written : Nat}
    {replacements : List Replacement} {edits : List Edit} {c : Char}
    (h : Makes copied written text replacements code edits) (hsource : source = passed ++ text)
    (hcopied : copied = byteSize passed)
    (hnew : ∀ replacement ∈ replacements, c ∉ replacement.text.toList) :
  ∃ insides, List.Forall₂ (fun edit inside => Slice source edit.replaced inside) edits insides ∧
    code.count c + insides.flatten.count c = text.count c
  := by
  induction h generalizing passed with
  | copy copied written text => exact ⟨[], .nil, rfl⟩
  | @replace copied written before inside after code edits replacement later hstart hstop hlater ih =>
    rw [List.forall_mem_cons] at hnew
    obtain ⟨insides, hslices, hcount⟩ := @ih (passed ++ before ++ inside)
      (by simp [hsource]) (by simp only [Text.byteSize_append]; omega) hnew.2
    use inside :: insides
    constructor
    · refine .cons ⟨passed ++ before, after, ?_, ?_, hstop⟩ hslices
      · simp [hsource]
      · rw [Text.byteSize_append, hstart, hcopied]
    · rw [← List.count_eq_zero] at hnew
      simp only [List.count_append, List.flatten_cons]
      omega

/-- A class list with the affix has no line feeds. -/
theorem Settings.lineFeed_notMem_renewed {settings : Settings} (htotal : settings.Total)
    (hspaces : ∀ {classes new : String}, settings.affixed classes = some new →
      ∀ c ∈ new.toList, Text.isBlank c = true → c = ' ') (classes : String) :
  '\n' ∉ (settings.renewed classes).toList
  := by
  obtain ⟨new, hnew⟩ := htotal.exists_affixed classes
  rw [renewed, hnew, Option.getD_some]
  intro hmem
  have hspace : '\n' = ' ' := hspaces hnew '\n' hmem (by decide)
  simp at hspace

namespace Outcome

variable {settings : Settings} {dialect : Dialect} {source : String} {result : Spliced}

/-- Where a source changes, it has been read. -/
theorem exists_parse_of_changed (h : ofSource settings dialect source = .changed result) :
  ∃ markup, settings.isNoop = false ∧ Markup.parse dialect source = .ok markup
  := by
  rw [ofSource] at h
  split at h
  · cases h
  · next hnoop =>
    split at h
    · next markup hparse => exact ⟨markup, by simpa using hnoop, hparse⟩
    · cases h
    · cases h

/-- A rewritten source has the line feeds of the source but for those in the literals that are
replaced. -/
theorem ofSource_lineFeeds (affix : String) (attributes : List String) (isUtility : String → Bool)
    (haffix : Command.checkAffix affix = .ok ())
    (h : ofSource ⟨affix, attributes, Classifier.ofPredicate isUtility⟩ dialect source =
      .changed result) :
  ∃ insides,
    List.Forall₂ (fun edit inside => Slice source.toList edit.replaced inside)
      result.edits insides ∧
    result.code.toList.count '\n' + insides.flatten.count '\n' = source.toList.count '\n'
  := by
  generalize hsettings : Settings.mk affix attributes (Classifier.ofPredicate isUtility) = settings
    at h
  have htotal : settings.Total := by
    rw [← hsettings]
    exact fun _ => rfl
  have hspaces : ∀ {classes new : String}, settings.affixed classes = some new →
      ∀ c ∈ new.toList, Text.isBlank c = true → c = ' ' := by
    rw [← hsettings]
    exact fun hnew c => ClassList.eq_space_of_mem_affixed haffix hnew
  obtain ⟨markup, hnoop, hparse⟩ := exists_parse_of_changed h
  obtain ⟨harena, helements⟩ := Markup.formed_of_parse hparse
  obtain ⟨slots, hslots, -⟩ := Selection.ofMarkup_finds htotal harena helements
  obtain ⟨replacements, hfound, -, -, hmakes, hsource⟩ := exists_makes htotal hnoop hparse
  obtain rfl := Option.some.inj (hslots.symm.trans hfound)
  rw [hsource] at h
  split at h
  · cases h
  obtain rfl := Outcome.changed.inj h
  apply hmakes.count_eq (List.nil_append _).symm rfl
  intro replacement hmem
  obtain ⟨slot, -, rfl⟩ := List.mem_map.mp ((List.mergeSort_perm _ _).subset hmem)
  exact slot.style.lineFeed_notMem_write (settings.lineFeed_notMem_renewed htotal hspaces _)

/-- A line feed between two tokens is lost, and the one behind the tag stays. -/
theorem ofSource_lineFeeds_joined :
  let source := "<p class='p-4\nm-2'>\n"
  let result : Spliced :=
    ⟨"<p class='tw-p-4 tw-m-2'>\n", [⟨.attributeLiteral, ⟨9, 18⟩, ⟨9, 24⟩⟩]⟩
  ofSource ⟨"tw-", ["class"], Classifier.ofPredicate Token.isUtility⟩ .html source =
      .changed result ∧
    ∃ insides,
      List.Forall₂ (fun edit inside => Slice source.toList edit.replaced inside)
        result.edits insides ∧
      result.code.toList.count '\n' + insides.flatten.count '\n' = source.toList.count '\n'
  := by
  intro source result
  have hsource : ofSource ⟨"tw-", ["class"], Classifier.ofPredicate Token.isUtility⟩ .html source =
      .changed result := by decide +kernel
  exact ⟨hsource, ofSource_lineFeeds "tw-" ["class"] Token.isUtility (by decide) hsource⟩

end Outcome

end UtilityClasses
