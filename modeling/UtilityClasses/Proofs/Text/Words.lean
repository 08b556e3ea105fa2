import Mathlib.Tactic.Common
import UtilityClasses.Text.Blank

/-!
# Words of a text

The words of a text are runs of its characters without blanks, and words put together with
spaces are the words of what they make.
-/

namespace UtilityClasses.Text

variable {text run : List Char} {runs : List (List Char)}

/-- The runs between blanks are made of characters that are not blank. -/
theorem of_mem_splitOnP (h : run ∈ text.splitOnP isBlank) :
  ∀ c ∈ run, isBlank c = false ∧ c ∈ text
  := by
  induction text generalizing run with
  | nil =>
    obtain rfl : run = [] := by simpa [List.splitOnP_nil] using h
    simp
  | cons d text ih =>
    have hlater : ∀ later ∈ text.splitOnP isBlank, ∀ c ∈ later,
        isBlank c = false ∧ c ∈ d :: text := by
      intro later hmem c hc
      obtain ⟨hblank, htext⟩ := ih hmem c hc
      use hblank, List.mem_cons_of_mem d htext
    rw [List.splitOnP_cons_eq_if_modifyHead] at h
    obtain ⟨first, others, hsplit⟩ := List.exists_cons_of_ne_nil (List.splitOnP_ne_nil isBlank text)
    rw [hsplit, List.modifyHead_cons] at h
    rw [hsplit] at hlater
    split at h
    · rcases List.mem_cons.mp h with rfl | hmem
      · simp
      · exact hlater run hmem
    · next hd =>
      rcases List.mem_cons.mp h with rfl | hmem
      · rw [List.forall_mem_cons]
        constructor
        · simpa using hd
        · exact hlater first List.mem_cons_self
      · exact hlater run (List.mem_cons_of_mem first hmem)

/-- Words are not empty, and have no blanks. -/
theorem of_mem_words (h : run ∈ words text) :
  run ≠ [] ∧ ∀ c ∈ run, isBlank c = false ∧ c ∈ text
  := by
  obtain ⟨hsplit, hne⟩ := List.mem_filter.mp h
  use by simpa using hne, of_mem_splitOnP hsplit

theorem words_append_blank {c : Char} (h : isBlank c = true) (before after : List Char) :
  words (before ++ c :: after) = words before ++ words after
  := by
  rw [words, List.splitOnP_append_cons before after h, List.filter_append]
  rfl

theorem words_of_not_blank (hne : run ≠ []) (h : ∀ c ∈ run, isBlank c = false) :
  words run = [run]
  := by
  rw [words, List.splitOnP_eq_singleton h, List.filter_cons_of_pos (by simpa using hne),
    List.filter_nil]

/-- Words with spaces between them. -/
theorem words_intercalate (h : ∀ run ∈ runs, run ≠ [] ∧ ∀ c ∈ run, isBlank c = false) :
  words ([' '].intercalate runs) = runs
  := by
  have hspace : isBlank ' ' = true := by decide
  induction runs with
  | nil => rfl
  | cons run runs ih =>
    rw [List.forall_mem_cons] at h
    have hrun := words_of_not_blank h.1.1 h.1.2
    cases runs with
    | nil => simpa using hrun
    | cons next runs =>
      rw [List.intercalate_cons_cons, List.append_assoc, List.singleton_append,
        words_append_blank hspace, ih h.2, hrun, List.singleton_append]

/-- Words with spaces between them are made of the characters of the words, and of spaces. -/
theorem mem_intercalate {c : Char} (h : c ∈ [' '].intercalate runs) :
  c = ' ' ∨ ∃ run ∈ runs, c ∈ run
  := by
  induction runs with
  | nil => simp at h
  | cons run runs ih =>
    cases runs with
    | nil => exact .inr ⟨run, List.mem_cons_self, by simpa using h⟩
    | cons next runs =>
      rw [List.intercalate_cons_cons, List.append_assoc, List.mem_append, List.mem_append,
        List.mem_singleton] at h
      obtain h | rfl | h := h
      · exact .inr ⟨run, List.mem_cons_self, h⟩
      · exact .inl rfl
      · obtain hspace | ⟨word, hmem, hc⟩ := ih h
        · exact .inl hspace
        · exact .inr ⟨word, List.mem_cons_of_mem run hmem, hc⟩

end UtilityClasses.Text
