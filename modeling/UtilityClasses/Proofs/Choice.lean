import Mathlib.Algebra.Ring.Int.Defs
import UtilityClasses.Proofs.Cursor.Splice

/-!
# Which replacements are made

Replacements can have any spans, in any order. One after the other is made, from left to right,
except those that are not of a part of the source, overlap one that has been made, or change
nothing. What is made does not depend on the order in which they are given, as long as no two
of them have the same span.
-/

namespace UtilityClasses

open Text (Slice byteSize)

/-! ### Edits -/

namespace Edit

/-- By how many bytes an edit makes a text longer. -/
def growth (edit : Edit) : Int :=
  (edit.output.stop - edit.output.start) - (edit.replaced.stop - edit.replaced.start)

/-- An edit tells what a replacement has taken out of a source, and where its text is in the
code. -/
structure Records (code : List Char) (replacement : Replacement) (edit : Edit) : Prop where
  target : edit.target = replacement.target
  replaced : edit.replaced = replacement.span
  output : Slice code edit.output replacement.text.toList

end Edit

namespace Replacement

variable {source text code : List Char} {replacements earlier made : List Replacement}
  {replacement : Replacement} {edits : List Edit} {copied written : Nat}

/-- Every replacement that is made is recorded, behind a text that is there before. -/
theorem Makes.records (h : Makes copied written text replacements code edits) (front : List Char)
    (hfront : written = byteSize front) :
  List.Forall₂ (Edit.Records (front ++ code)) replacements edits
  := by
  induction h generalizing front with
  | copy => exact .nil
  | @replace _ _ before inside after code _ replacement _ hstart hstop _ ih =>
    constructor
    · refine ⟨rfl, rfl, front ++ before, code, ?_, ?_, rfl⟩
      · simp only [List.append_assoc]
      · rw [hfront, Text.byteSize_append]
    · have hlater := ih (front ++ before ++ replacement.text.toList) (by
        rw [hfront, Text.byteSize_append, Text.byteSize_append])
      simp only [List.append_assoc] at hlater ⊢
      exact hlater

/-- An edit is moved by as many bytes as the edits in front of it have made the text longer. -/
theorem Makes.output_start (h : Makes copied written text replacements code edits)
    {before after : List Edit} {edit : Edit} (hedits : edits = before ++ edit :: after) :
  (edit.output.start : Int) - written =
    edit.replaced.start - copied + (before.map Edit.growth).sum
  := by
  induction h generalizing before with
  | copy => simp at hedits
  | replace hstart hstop _ ih =>
    cases before with
    | nil =>
      obtain ⟨rfl, -⟩ := List.cons.inj hedits
      simp only [hstart, List.map_nil, List.sum_nil]
      omega
    | cons first before =>
      obtain ⟨rfl, hlater⟩ := List.cons.inj hedits
      have hstart' := ih hlater
      simp only [List.map_cons, List.sum_cons, Edit.growth]
      omega

/-! ### Choice -/

/-- A replacement is passed over if it is not of a part of the source, if it starts before one
that has been made ends, or if its text is there. -/
inductive PassedOver (source : List Char) (earlier : List Replacement)
    (replacement : Replacement) : Prop
  | outside (h : ∀ inside, ¬ Slice source replacement.span inside)
  | overlap {other : Replacement} (hmem : other ∈ earlier)
      (hlt : replacement.span.start < other.span.stop)
  | same (h : Slice source replacement.span replacement.text.toList)

/-- Of replacements in order, after others that have been made, those are made that are not
passed over. -/
inductive Chosen (source : List Char) :
    List Replacement → List Replacement → List Replacement → Prop
  | nil (earlier : List Replacement) : Chosen source earlier [] []
  | make {earlier later made : List Replacement} {replacement : Replacement}
      (h : ¬ PassedOver source earlier replacement)
      (hlater : Chosen source (earlier ++ [replacement]) later made) :
      Chosen source earlier (replacement :: later) (replacement :: made)
  | pass {earlier later made : List Replacement} {replacement : Replacement}
      (h : PassedOver source earlier replacement) (hlater : Chosen source earlier later made) :
      Chosen source earlier (replacement :: later) made

/-- A replacement that is not passed over changes the source. -/
theorem changes_of_not_passedOver (h : ¬ PassedOver source earlier replacement) :
  replacement.Changes source
  := by
  by_contra hnot
  simp only [Changes, not_exists, not_and, not_not] at hnot
  by_cases hslice : ∃ inside, Slice source replacement.span inside
  · obtain ⟨inside, hslice⟩ := hslice
    have hsame := hnot inside hslice
    subst hsame
    exact h (.same hslice)
  · exact h (.outside (not_exists.mp hslice))

/-- What is made changes the source. -/
theorem Chosen.changes (h : Chosen source earlier replacements made) :
  ∀ replacement ∈ made, replacement.Changes source
  := by
  induction h with
  | nil => simp
  | make hmake _ ih =>
    rw [List.forall_mem_cons]
    exact ⟨changes_of_not_passedOver hmake, ih⟩
  | pass _ _ ih => exact ih

/-- The replacements that have been made end at an offset, or in front of it. -/
def EndsAt (earlier : List Replacement) (offset : Nat) : Prop :=
  ∀ start, start < offset ↔ ∃ other ∈ earlier, start < other.span.stop

theorem EndsAt.nil :
  EndsAt [] 0
  := by
  simp [EndsAt]

theorem EndsAt.append {offset : Nat} (h : EndsAt earlier offset)
    (hle : offset ≤ replacement.span.stop) :
  EndsAt (earlier ++ [replacement]) replacement.span.stop
  := by
  intro start
  simp only [List.mem_append, List.mem_singleton, or_and_right, exists_or, exists_eq_left,
    ← h start]
  omega

/-- A replacement whose span does not divide what is left of a source is passed over. -/
theorem passedOver_of_divide {passed : List Char} (hsource : source = passed ++ text)
    (hends : EndsAt earlier (byteSize passed))
    (h : divide (byteSize passed) text replacement.span = none) :
  PassedOver source earlier replacement
  := by
  obtain hlt | hnone := (divide_eq_none_iff hsource).mp h
  · obtain ⟨other, hmem, hlt⟩ := (hends _).mp hlt
    exact .overlap hmem hlt
  · exact .outside hnone

/-- A replacement whose span divides what is left of a source is passed over only if its text is
there. -/
theorem not_passedOver_of_divide {passed before inside after : List Char}
    (hsource : source = passed ++ text) (hends : EndsAt earlier (byteSize passed))
    (h : divide (byteSize passed) text replacement.span = some (before, inside, after))
    (hne : inside ≠ replacement.text.toList) :
  ¬ PassedOver source earlier replacement
  := by
  have hslice := slice_of_divide hsource h
  rintro (hnone | ⟨hmem, hlt⟩ | hsame)
  · exact hnone inside hslice
  · have hbefore := (hends _).mpr ⟨_, hmem, hlt⟩
    have hstart := (divide_eq_some_iff.mp h).2.1
    omega
  · exact hne (hslice.unique hsame)

/-- Behind what has been dealt with, the replacements are made that are not passed over. -/
theorem exists_chosen (passed : List Char) (earlier replacements : List Replacement)
    (hsource : source = passed ++ text) (hends : EndsAt earlier (byteSize passed))
    (written : Nat) :
  ∃ made, Chosen source earlier replacements made ∧
    Makes (byteSize passed) written text made
      (spliceFrom (byteSize passed) written text replacements).1
      (spliceFrom (byteSize passed) written text replacements).2
  := by
  induction replacements generalizing passed text written earlier with
  | nil => exact ⟨[], .nil earlier, .copy _ _ _⟩
  | cons replacement replacements ih =>
    rw [spliceFrom]
    cases hdivide : divide (byteSize passed) text replacement.span with
    | none =>
      obtain ⟨made, hchosen, hmakes⟩ := ih passed earlier hsource hends written
      exact ⟨made, .pass (passedOver_of_divide hsource hends hdivide) hchosen, hmakes⟩
    | some parts =>
      obtain ⟨before, inside, after⟩ := parts
      by_cases hsame : inside = replacement.text.toList
      · obtain ⟨made, hchosen, hmakes⟩ := ih passed earlier hsource hends written
        have hslice := slice_of_divide hsource hdivide
        rw [hsame] at hslice
        simp only [hsame, if_true]
        exact ⟨made, .pass (.same hslice) hchosen, hmakes⟩
      -- what has been dealt with ends from now on where this replacement does
      · have hmake := not_passedOver_of_divide hsource hends hdivide hsame
        obtain ⟨hparts, -, hcopied⟩ := eq_append_of_divide hsource hdivide
        obtain ⟨rfl, hstart, hstop⟩ := divide_eq_some_iff.mp hdivide
        have hends' := hends.append (show byteSize passed ≤ replacement.span.stop by omega)
        rw [hcopied] at hends'
        obtain ⟨made, hchosen, hmakes⟩ := ih _ _ hparts hends'
          (written + byteSize before + byteSize replacement.text.toList)
        rw [← hcopied] at hmakes
        simp only [hsame, if_false]
        exact ⟨replacement :: made, .make hmake hchosen, .replace hstart hstop hmakes⟩

/-- Whatever the replacements are, nothing is cut that is not made of whole characters, and of
the replacements in order exactly those are made that are not passed over: the code is the source
in which their texts are in the place of their spans. Their spans are slices of the source, one
after the other. Every edit records its replacement, and is moved by as many bytes as the edits in
front of it have made the text longer. -/
theorem splice_exact (source : String) (replacements : List Replacement) :
  let result := splice source replacements
  Cursor.splice? source replacements = some result ∧
  (∃ made, Chosen source.toList [] (inOrder replacements) made ∧
    Makes 0 0 source.toList made result.code.toList result.edits ∧
    List.Forall₂ (Edit.Records result.code.toList) made result.edits) ∧
  Row 0 (result.edits.map Edit.replaced) (byteSize source.toList) ∧
  (∀ edit ∈ result.edits, ∃ inside, Slice source.toList edit.replaced inside) ∧
  ∀ before edit after, result.edits = before ++ edit :: after →
    (edit.output.start : Int) = edit.replaced.start + (before.map Edit.growth).sum
  := by
  intro result
  have hcode : result.code.toList =
      (spliceFrom 0 0 source.toList (inOrder replacements)).1 := String.toList_ofList
  obtain ⟨made, hchosen, hmakes⟩ := exists_chosen [] [] (inOrder replacements)
    (List.nil_append source.toList).symm .nil 0
  rw [byteSize, ← hcode] at hmakes
  have hmakes : Makes 0 0 source.toList made result.code.toList result.edits := hmakes
  have hrecords := hmakes.records [] rfl
  have hspans := hmakes.replaced_eq
  refine ⟨Cursor.splice?_eq source replacements, ⟨made, hchosen, hmakes, hrecords⟩, ?_, ?_, ?_⟩
  · rw [hspans]
    simpa using hmakes.row
  · intro edit hmem
    have hspan : edit.replaced ∈ made.map Replacement.span :=
      hspans ▸ List.mem_map_of_mem hmem
    obtain ⟨replacement, hmade, heq⟩ := List.mem_map.mp hspan
    obtain ⟨inside, hslice, -⟩ := hchosen.changes replacement hmade
    exact ⟨inside, heq ▸ hslice⟩
  · intro before edit after hedits
    have hstart := hmakes.output_start hedits
    omega

/-- A span outside the source, an inverted one, one that cuts a character, an insertion in front
of a replacement, one that overlaps it, and a text that is there. -/
example :
  splice "äbcd" [⟨.argumentLiteral, ⟨3, 9⟩, "x"⟩, ⟨.argumentLiteral, ⟨4, 3⟩, "x"⟩,
      ⟨.argumentLiteral, ⟨1, 2⟩, "x"⟩, ⟨.argumentLiteral, ⟨2, 4⟩, "u"⟩,
      ⟨.argumentLiteral, ⟨2, 2⟩, "v"⟩, ⟨.argumentLiteral, ⟨3, 5⟩, "w"⟩,
      ⟨.argumentLiteral, ⟨4, 5⟩, "d"⟩] =
    ⟨"ävud", [⟨.argumentLiteral, ⟨2, 2⟩, ⟨2, 3⟩⟩, ⟨.argumentLiteral, ⟨2, 4⟩, ⟨3, 4⟩⟩]⟩
  := by
  cbv

/-! ### The order in which replacements are given -/

/-- It does not matter in which order replacements with different spans are given. -/
theorem splice_eq_of_perm {found : List Replacement} (hperm : found.Perm replacements)
    (hdistinct : (replacements.map Replacement.span).Nodup) (source : String) :
  splice source found = splice source replacements
  := by
  rw [splice, splice, inOrder_congr hperm hdistinct]

/-- Replacements that overlap each other, and one that ends before it starts. -/
def tangled : List Replacement :=
  [⟨.argumentLiteral, ⟨1, 3⟩, "x"⟩, ⟨.argumentTemplate, ⟨0, 2⟩, "y"⟩,
    ⟨.argumentRight, ⟨1, 0⟩, "z"⟩]

theorem splice_eq_of_perm_tangled :
  tangled.reverse.Perm tangled ∧ (tangled.map Replacement.span).Nodup ∧
    splice "abcd" tangled.reverse = splice "abcd" tangled
  :=
  ⟨List.reverse_perm tangled, by decide,
    splice_eq_of_perm (List.reverse_perm tangled) (by decide) "abcd"⟩

/-- Of two replacements of the same span the first one is made. -/
example :
  let first : Replacement := ⟨.argumentLiteral, ⟨0, 1⟩, "x"⟩
  let second : Replacement := ⟨.argumentLiteral, ⟨0, 1⟩, "y"⟩
  (splice "a" [first, second]).code = "x" ∧ (splice "a" [second, first]).code = "y"
  := by
  cbv

end Replacement

end UtilityClasses
