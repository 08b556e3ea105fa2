import UtilityClasses.Cursor.Splice
import UtilityClasses.Proofs.Cursor.Token
import UtilityClasses.Proofs.Splice

/-!
# Replacements made by byte offsets

Replacements that are made by offsets into the whole source are made as in what is left of it.
What is cut out of the source is made of whole characters each time.
-/

namespace UtilityClasses.Cursor

open Text (byteSize)

namespace Splicing

variable {source passed text inside code : List Char} {edits : List Edit}
  {replacement : Replacement}

/-- A replacement is passed over if what is left of the source is not divided by its span. -/
theorem make?_of_divide_eq_none (hsource : source = passed ++ text)
    (h : Replacement.divide (byteSize passed) text replacement.span = none) :
  make? source ⟨byteSize passed, code, edits⟩ replacement =
    some ⟨byteSize passed, code, edits⟩
  := by
  obtain hlt | hnone := (Replacement.divide_eq_none_iff hsource).mp h
  · rw [make?, if_pos hlt]
  · rw [make?, textAt?_eq_none_iff.mpr hnone]
    split <;> rfl

/-- A replacement is made if what is left of the source is divided by its span, unless its text
is there. -/
theorem make?_of_divide_eq_some {before after : List Char} (hsource : source = passed ++ text)
    (h : Replacement.divide (byteSize passed) text replacement.span =
      some (before, inside, after)) :
  make? source ⟨byteSize passed, code, edits⟩ replacement =
    if inside = replacement.text.toList then some ⟨byteSize passed, code, edits⟩
    else some ⟨replacement.span.stop, code ++ before ++ replacement.text.toList,
      edits ++ [⟨replacement.target, replacement.span, ⟨byteSize code + byteSize before,
        byteSize code + byteSize before + byteSize replacement.text.toList⟩⟩]⟩
  := by
  obtain ⟨hparts, hstart, hstop⟩ := Replacement.eq_append_of_divide hsource h
  have hinside : textAt? source replacement.span = some inside :=
    textAt?_eq_some_iff.mpr (Replacement.slice_of_divide hsource h)
  have hbetween : textAt? source ⟨byteSize passed, replacement.span.start⟩ = some before := by
    rw [hparts, hstart, Text.byteSize_append, List.append_assoc (passed ++ before)]
    exact textAt?_eq passed before (inside ++ after)
  have hnot : ¬ replacement.span.start < byteSize passed := by
    rw [hstart, Text.byteSize_append]
    omega
  rw [make?, if_neg hnot, hinside]
  simp only [hbetween, Option.bind_eq_bind, Option.bind_some, Option.pure_def,
    Text.byteSize_append]

/-- From what has been dealt with on, the rest of a source is replaced by offsets as it is in
itself. -/
theorem foldlM_make? (replacements : List Replacement) (hsource : source = passed ++ text) :
  (do finish? source (← replacements.foldlM (make? source) ⟨byteSize passed, code, edits⟩)) =
    some ⟨
      String.ofList (code ++
        (Replacement.spliceFrom (byteSize passed) (byteSize code) text replacements).1),
      edits ++ (Replacement.spliceFrom (byteSize passed) (byteSize code) text replacements).2⟩
  := by
  induction replacements generalizing passed text code edits with
  | nil =>
    have hlast : textAt? source ⟨byteSize passed, byteSize source⟩ = some text := by
      refine textAt?_eq_some_iff.mpr ⟨passed, [], ?_, rfl, ?_⟩
      · rw [hsource, List.append_nil]
      · rw [hsource, Text.byteSize_append]
    simp [finish?, hlast, Replacement.spliceFrom]
  | cons replacement replacements ih =>
    rw [List.foldlM_cons, Replacement.spliceFrom]
    cases hdivide : Replacement.divide (byteSize passed) text replacement.span with
    | none =>
      rw [make?_of_divide_eq_none hsource hdivide]
      exact ih hsource
    | some parts =>
      obtain ⟨before, inside, after⟩ := parts
      rw [make?_of_divide_eq_some hsource hdivide]
      by_cases hsame : inside = replacement.text.toList
      · simp only [hsame, if_true]
        exact ih hsource
      · obtain ⟨hparts, -, hstop⟩ := Replacement.eq_append_of_divide hsource hdivide
        simp only [hsame, if_false, hstop]
        apply (ih hparts).trans
        simp only [Text.byteSize_append, List.append_assoc, List.singleton_append, Nat.add_assoc]

end Splicing

/-- Replacements are made by offsets, and nothing is cut that is not made of whole characters. -/
theorem splice?_eq (source : String) (replacements : List Replacement) :
  splice? source replacements = some (Replacement.splice source replacements)
  := Splicing.foldlM_make? (Replacement.inOrder replacements) (List.nil_append source.toList).symm

end UtilityClasses.Cursor
