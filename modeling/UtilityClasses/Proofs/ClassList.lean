import UtilityClasses.Command.Options
import UtilityClasses.Proofs.Text.Words
import UtilityClasses.Proofs.Token.Affix

/-!
# Prefixing a class list twice

A class list with the affix on its utilities stays as it is when it is prefixed again: its
tokens are those of the first list, one for one, and each of them either carries the affix or
is no utility.
-/

namespace UtilityClasses

open Text (words)

/-- An affix that is accepted is not empty, and has neither blanks nor quotes in it. -/
theorem Command.of_checkAffix {affix : String} (h : checkAffix affix = .ok ()) :
  affix.isEmpty = false ∧ ∀ c ∈ affix.toList,
    Text.isBlank c = false ∧ c ≠ '"' ∧ c ≠ '\''
  := by
  rw [checkAffix] at h
  split at h
  · simp at h
  · next hempty =>
    split at h
    · simp at h
    · next hfind =>
      use by simpa using hempty
      intro c hc
      have hforbidden := List.find?_eq_none.mp hfind c hc
      simp only [isForbidden, Bool.or_eq_true, decide_eq_true_eq, not_or, Bool.not_eq_true]
        at hforbidden
      exact ⟨hforbidden.1.1.1.1, hforbidden.1.1.1.2, hforbidden.1.1.2⟩

/-- The affix is not empty, and has neither blanks nor quotes in it. -/
structure ClassList.IsAffix (affix : String) : Prop where
  isEmpty : affix.isEmpty = false
  isBlank : ∀ c ∈ affix.toList, Text.isBlank c = false
  double : '"' ∉ affix.toList
  single : '\'' ∉ affix.toList

theorem Command.isAffix_of_checkAffix {affix : String} (h : checkAffix affix = .ok ()) :
  ClassList.IsAffix affix
  where
  isEmpty := (of_checkAffix h).1
  isBlank := fun c hc => ((of_checkAffix h).2 c hc).1
  double := fun hmem => ((of_checkAffix h).2 _ hmem).2.1 rfl
  single := fun hmem => ((of_checkAffix h).2 _ hmem).2.2 rfl

/-- An affix that is accepted is put on every token once exactly if it does not start with the
marker. -/
theorem Command.withAffix_withAffix_iff {affix : String} (h : checkAffix affix = .ok ()) :
  (∀ token, Token.withAffix affix (Token.withAffix affix token) = Token.withAffix affix token) ↔
    affix.toList.head? ≠ some '!'
  := by
  have haffix := isAffix_of_checkAffix h
  rw [← Token.affixChars_affixChars_iff haffix.double haffix.single]
  simp only [Token.withAffix, String.toList_ofList]
  constructor
  · intro honce token
    simpa using congrArg String.toList (honce (String.ofList token))
  · intro honce token
    rw [honce]

/-- An affix that starts with the marker is accepted, and is put on some token twice. -/
theorem Command.withAffix_withAffix_iff_marker :
  checkAffix "!tw-" = .ok () ∧
    ¬ ∀ token, Token.withAffix "!tw-" (Token.withAffix "!tw-" token) = Token.withAffix "!tw-" token
  := by
  have haffix : checkAffix "!tw-" = .ok () := by decide
  use haffix
  rw [withAffix_withAffix_iff haffix]
  decide

namespace ClassList

variable (affix : String) (isUtility : String → Bool)

/-- A token with the affix if it is a utility. -/
def prefixed (token : List Char) : List Char :=
  if isUtility (String.ofList token) then Token.affixChars affix.toList token else token

variable {affix isUtility}

/-- A class list of which every token is classified. -/
theorem affixed_eq (h : affix.isEmpty = false) (classes : String) :
  affixed affix (Classifier.ofPredicate isUtility) classes =
    some (String.ofList
      ([' '].intercalate ((words classes.toList).map (prefixed affix isUtility))))
  := by
  have htoken : affixedToken affix (Classifier.ofPredicate isUtility) =
      fun token => some (prefixed affix isUtility token) := rfl
  have htokens : (words classes.toList).mapM
      (fun token => some (prefixed affix isUtility token)) =
        some ((words classes.toList).map (prefixed affix isUtility)) := List.mapM_pure
  rw [affixed, h, if_neg Bool.false_ne_true, htoken, htokens]
  rfl

theorem mem_prefixed {c : Char} {token : List Char} (h : c ∈ prefixed affix isUtility token) :
  c ∈ affix.toList ∨ c ∈ token
  := by
  rw [prefixed] at h
  split at h
  · exact Token.mem_affixChars h
  · exact .inr h

/-- A prefixed token starts as before, or with the affix. -/
theorem head?_prefixed_cases (token : List Char) :
  (prefixed affix isUtility token).head? = token.head? ∨
    (prefixed affix isUtility token).head? = affix.toList.head?
  := by
  rw [prefixed]
  split
  · exact Token.head?_affixChars_cases affix.toList token
  · exact .inl rfl

/-- A prefixed token ends as before. -/
theorem getLast?_prefixed (token : List Char) :
  (prefixed affix isUtility token).getLast? = token.getLast?
  := by
  rw [prefixed]
  split
  · exact Token.getLast?_affixChars affix.toList token
  · rfl

theorem prefixed_ne_nil {token : List Char} (h : token ≠ []) :
  prefixed affix isUtility token ≠ []
  := by
  rw [prefixed]
  split
  · exact Token.affixChars_ne_nil h
  · exact h

/-- A token is prefixed once. -/
theorem prefixed_prefixed (haffix : IsAffix affix) (hmark : affix.toList.head? ≠ some '!')
    (token : List Char) :
  prefixed affix isUtility (prefixed affix isUtility token) = prefixed affix isUtility token
  := by
  by_cases hutility : isUtility (String.ofList token) = true
  · rw [prefixed.eq_def affix isUtility token, if_pos hutility, prefixed,
      Token.affixChars_affixChars haffix.double haffix.single hmark, ite_self]
  · rw [prefixed.eq_def affix isUtility token, if_neg hutility, prefixed, if_neg hutility]

/-- The tokens of a prefixed class list are those of the list, one for one. -/
theorem words_affixed (haffix : IsAffix affix) {classes new : String}
    (h : affixed affix (Classifier.ofPredicate isUtility) classes = some new) :
  words new.toList = (words classes.toList).map (prefixed affix isUtility)
  := by
  rw [affixed_eq haffix.isEmpty, Option.some.injEq] at h
  subst h
  rw [String.toList_ofList]
  apply Text.words_intercalate
  intro token hmem
  obtain ⟨word, hword, rfl⟩ := List.mem_map.mp hmem
  obtain ⟨hempty, hblank⟩ := Text.of_mem_words hword
  use prefixed_ne_nil hempty
  intro c hc
  obtain hc | hc := mem_prefixed hc
  · exact haffix.isBlank c hc
  · exact (hblank c hc).1

/-- One space stands between the tokens of a prefixed class list. -/
theorem intercalate_words_affixed (haffix : IsAffix affix) {classes new : String}
    (h : affixed affix (Classifier.ofPredicate isUtility) classes = some new) :
  [' '].intercalate (words new.toList) = new.toList
  := by
  rw [words_affixed haffix h]
  rw [affixed_eq haffix.isEmpty, Option.some.injEq] at h
  rw [← h, String.toList_ofList]

/-- A prefixed class list stays as it is when it is prefixed again. -/
theorem affixed_affixed (haffix : IsAffix affix) (hmark : affix.toList.head? ≠ some '!')
    {classes new : String}
    (h : affixed affix (Classifier.ofPredicate isUtility) classes = some new) :
  affixed affix (Classifier.ofPredicate isUtility) new = some new
  := by
  have hne := haffix.isEmpty
  have hsame : prefixed affix isUtility ∘ prefixed affix isUtility = prefixed affix isUtility :=
    funext (prefixed_prefixed haffix hmark)
  rw [affixed_eq hne, words_affixed haffix h, List.map_map, hsame, ← affixed_eq hne, h]

/-- A prefixed class list is made of the affix, of what it was, and of spaces. -/
theorem mem_affixed (hne : affix.isEmpty = false) {classes new : String}
    (h : affixed affix (Classifier.ofPredicate isUtility) classes = some new) {c : Char}
    (hc : c ∈ new.toList) :
  c = ' ' ∨ c ∈ affix.toList ∨ c ∈ classes.toList
  := by
  rw [affixed_eq hne, Option.some.injEq] at h
  subst h
  rw [String.toList_ofList] at hc
  obtain hspace | ⟨token, hmem, hc⟩ := Text.mem_intercalate hc
  · exact .inl hspace
  · obtain ⟨word, hword, rfl⟩ := List.mem_map.mp hmem
    obtain hc | hc := mem_prefixed hc
    · exact .inr (.inl hc)
    · exact .inr (.inr ((Text.of_mem_words hword).2 c hc).2)

/-- The tokens of a class list. -/
def tokens (classes : String) : List String :=
  (words classes.toList).map String.ofList

theorem prefixed_eq (token : List Char) :
  String.ofList (prefixed affix isUtility token) =
    if isUtility (String.ofList token) then Token.withAffix affix (String.ofList token)
    else String.ofList token
  := by
  rw [prefixed, Token.withAffix, String.toList_ofList]
  split <;> rfl

end ClassList

/-- A prefixed class list has the tokens of the list, one for one, with the affix on those that
are utilities, and one space between one and the next. It counts as a change exactly if the text
is another one, and to prefix it again is no change. -/
theorem Settings.revised_exact (settings : Settings) {isUtility : String → Bool}
    (haffix : ClassList.IsAffix settings.affix) (hmark : settings.affix.toList.head? ≠ some '!')
    (hpure : settings.classify = Classifier.ofPredicate isUtility) (classes : String) :
  ∃ new,
    settings.affixed classes = some new ∧
    ClassList.tokens new = (ClassList.tokens classes).map (fun token =>
      if isUtility token then Token.withAffix settings.affix token else token) ∧
    new = " ".intercalate (ClassList.tokens new) ∧
    (settings.revised classes = some none ↔ new = classes) ∧
    settings.revised new = some none
  := by
  obtain ⟨new, hnew⟩ : ∃ new,
      ClassList.affixed settings.affix (Classifier.ofPredicate isUtility) classes = some new :=
    ⟨_, ClassList.affixed_eq haffix.isEmpty classes⟩
  have hwords := ClassList.words_affixed haffix hnew
  have hspaces := ClassList.intercalate_words_affixed haffix hnew
  have hagain := ClassList.affixed_affixed haffix hmark hnew
  rw [← hpure] at hnew hagain
  refine ⟨new, hnew, ?_, ?_, ?_, ?_⟩
  · simp only [ClassList.tokens, hwords, List.map_map]
    apply List.map_congr_left
    intro token _
    exact ClassList.prefixed_eq token
  · have hspace : " ".toList = [' '] := rfl
    have htokens : (ClassList.tokens new).map String.toList = words new.toList := by
      simp [ClassList.tokens]
    rw [← String.toList_inj, String.toList_intercalate, htokens, hspace, hspaces]
  · rw [Settings.revised, Settings.affixed, hnew, Option.map_some, Option.some_inj]
    by_cases hsame : new = classes <;> simp [hsame]
  · rw [Settings.revised, Settings.affixed, hagain, Option.map_some, if_pos rfl]

/-- A token that is a utility may be none with the affix, and the list still stays as it is. -/
theorem Settings.revised_exact_renamed :
  ClassList.IsAffix "tw:" ∧ "tw:".toList.head? ≠ some '!' ∧
    Settings.affixed ⟨"tw:", ["class"], Classifier.ofPredicate (· = "flex")⟩ " flex  Card " =
      some "tw:flex Card" ∧
    Settings.revised ⟨"tw:", ["class"], Classifier.ofPredicate (· = "flex")⟩ "tw:flex Card" =
      some none
  := by
  have haffix : ClassList.IsAffix "tw:" := Command.isAffix_of_checkAffix (by decide +kernel)
  have hmark : "tw:".toList.head? ≠ some '!' := by decide
  have haffixed : Settings.affixed ⟨"tw:", ["class"], Classifier.ofPredicate (· = "flex")⟩
      " flex  Card " = some "tw:flex Card" := by decide +kernel
  obtain ⟨new, hnew, -, -, -, hagain⟩ := Settings.revised_exact
    ⟨"tw:", ["class"], Classifier.ofPredicate (· = "flex")⟩ haffix hmark rfl " flex  Card "
  obtain rfl : new = "tw:flex Card" := Option.some.inj (hnew.symm.trans haffixed)
  exact ⟨haffix, hmark, haffixed, hagain⟩

end UtilityClasses
