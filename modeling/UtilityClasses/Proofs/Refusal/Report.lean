import UtilityClasses.Command.Report
import UtilityClasses.Proofs.Cursor.Source
import UtilityClasses.Proofs.Refusal.Expression

/-!
# Errors point at the source

A source is refused for a construct that stands in it, and a report points at a part of the source.
-/

namespace UtilityClasses

open Text (Slice byteSize)

variable {source : String} {span : Span}

/-! ### Labels -/

namespace Command

/-- The character after an offset lies in the source. -/
theorem next_le {start : Nat} (h : start ≤ source.utf8ByteSize) :
  start + ((Text.cutAt start source.toList).bind fun cut => cut.2.head?).elim 0 Char.utf8Size ≤
    source.utf8ByteSize
  := by
  cases hcut : Text.cutAt start source.toList with
  | none => exact h
  | some cut =>
    obtain ⟨before, ahead⟩ := cut
    obtain ⟨hsource, hbefore⟩ := Text.eq_append_of_cutAt hcut
    rw [utf8ByteSize_eq, hsource, Text.byteSize_append, hbefore]
    cases ahead with
    | nil => exact Nat.le_refl _
    | cons c later => exact Nat.add_le_add_left (Nat.le_add_right _ _) _

/-- Whatever the span, a report points at a part of the source. -/
theorem labelSpan_le (source : String) (span : Span) :
  (labelSpan source span).start ≤ (labelSpan source span).stop ∧
    (labelSpan source span).stop ≤ source.utf8ByteSize
  := by
  rw [labelSpan]
  dsimp only
  split
  · next hlt => exact ⟨Nat.le_of_lt hlt, Nat.min_le_right _ _⟩
  · exact ⟨Nat.le_add_right _ _, next_le (Nat.min_le_right _ _)⟩

/-- Both ends of what a report points at are at characters if those of the span are. -/
theorem exists_slice_labelSpan {inside : List Char} (h : Slice source.toList span inside) :
  ∃ inside, Slice source.toList (labelSpan source span) inside
  := by
  obtain ⟨hle, hsize⟩ := h.le
  rw [← utf8ByteSize_eq] at hsize
  rw [labelSpan, Nat.min_eq_left hsize, Nat.min_eq_left (Nat.le_trans hle hsize)]
  dsimp only
  split
  · exact ⟨inside, h⟩
  · next hlt =>
    obtain ⟨before, after, hsource, hstart, hstop⟩ := h
    have hnil : inside = [] := by
      by_contra hne
      have hpos := Text.byteSize_pos hne
      omega
    subst hnil
    rw [List.append_nil] at hsource
    rw [hsource, hstart, Text.cutAt_byteSize_append, Option.bind_some]
    cases after with
    | nil => exact ⟨[], before, [], by simp, rfl, rfl⟩
    | cons c later => exact ⟨[c], before, later, by simp, rfl, rfl⟩

end Command

/-! ### Errors -/

/-- A source is refused by its scan. -/
theorem Markup.source_of_parse_eq_error {dialect : Dialect} {stop : Scan.Stop}
    (h : Markup.parse dialect source = .error stop) :
  Scan.source (Scan.Context.ofLength dialect source.toList.length) (.initial source.toList) =
    .error stop
  := by
  change (Scan.source _ (.initial source.toList)).bind _ = _ at h
  cases hscan : Scan.source (Scan.Context.ofLength dialect source.toList.length)
      (.initial source.toList) with
  | error stop' =>
    rw [hscan] at h
    cases h
    rfl
  | ok found =>
    rw [hscan] at h
    cases h

/-- A source is refused for a construct that stands in it: what the error says lies between two
characters of the source, and it starts with the text that opens a construct of its kind. The report
points at a part of the source. -/
theorem Markup.refusal_stands {dialect : Dialect} {stop : Scan.Stop}
    (h : Markup.parse dialect source = .error stop) :
  ∃ error, stop = .error error ∧ error.span.start ≤ error.span.stop ∧
    error.span.stop ≤ source.utf8ByteSize ∧ (∃ inside, Slice source.toList error.span inside) ∧
    error.Stands source.toList ∧
    (Command.labelSpan source error.span).start ≤ (Command.labelSpan source error.span).stop ∧
    (Command.labelSpan source error.span).stop ≤ source.utf8ByteSize ∧
    ∃ inside, Slice source.toList (Command.labelSpan source error.span) inside
  := by
  obtain ⟨markup, -, hparse⟩ | ⟨error, -, hparse⟩ := Cursor.parse_agrees dialect source
  · rw [h] at hparse
    cases hparse
  · have hsource := source_of_parse_eq_error hparse
    rw [h] at hparse
    obtain rfl := Except.error.inj hparse
    have hat : (Scan.State.initial source.toList).At source.toList := ⟨[], rfl, rfl⟩
    have hnested := Scan.accounts_nested source.toList dialect source.toList.length
    have hstands := (Scan.points_source hnested hat).2 error hsource
    obtain ⟨opener, -, inside, hslice⟩ := hstands.opens
    obtain ⟨hle, hsize⟩ := hslice.le
    rw [← utf8ByteSize_eq] at hsize
    obtain ⟨hlabel, hlabelSize⟩ := Command.labelSpan_le source error.span
    exact ⟨error, rfl, hle, hsize, ⟨_, hslice⟩, hstands, hlabel, hlabelSize,
      Command.exists_slice_labelSpan hslice⟩

/-- No value follows a `=` behind which there are blanks and a longer character. -/
theorem Markup.refusal_stands_missingValue :
  ∃ error, Markup.parse .jsx "<p title=\n é/>" = .error (.error error) ∧
    error = ⟨.missingValue "title", ⟨11, 11⟩⟩ ∧ error.Stands "<p title=\n é/>".toList ∧
    Command.labelSpan "<p title=\n é/>" error.span = ⟨11, 13⟩
  := by
  have hparse : Markup.parse .jsx "<p title=\n é/>" =
      .error (.error ⟨.missingValue "title", ⟨11, 11⟩⟩) := rfl
  obtain ⟨error, heq, -, -, -, hstands, -⟩ := refusal_stands hparse
  obtain rfl := Scan.Stop.error.inj heq
  exact ⟨_, hparse, rfl, hstands, by decide +kernel⟩

end UtilityClasses
