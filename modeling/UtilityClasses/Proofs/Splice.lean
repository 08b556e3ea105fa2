import Mathlib.Data.List.Nodup
import Mathlib.Data.List.Pairwise
import Mathlib.Data.Option.Basic
import UtilityClasses.Proofs.Text.Slice
import UtilityClasses.Proofs.Tree.Sites
import UtilityClasses.Replacement

/-!
# Splicing

Replacements of spans that lie apart, are made of whole characters of the source and change
them are all made, from left to right, and everything else is copied.
-/

namespace UtilityClasses

open Text (Slice byteSize)

/-- A span that does not precede another one starts later, or with it and ends no earlier. -/
theorem Span.precedes_eq_false_iff {span other : Span} :
  span.precedes other = false ↔
    other.start < span.start ∨ other.start = span.start ∧ other.stop ≤ span.stop
  := by
  simp only [precedes, Bool.or_eq_false_iff, Bool.and_eq_false_iff, decide_eq_false_iff_not,
    beq_eq_false_iff_ne]
  omega

/-- Of two different spans one precedes the other. -/
theorem Span.eq_of_precedes_eq_false {span other : Span} (h : span.precedes other = false)
    (h' : other.precedes span = false) :
  span = other
  := by
  obtain ⟨start, stop⟩ := span
  obtain ⟨start', stop'⟩ := other
  simp only [precedes_eq_false_iff] at h h'
  rw [mk.injEq]
  omega

namespace Replacement

/-- The text in which all replacements are made in what is left of a source, and the edits: of
the source `copied` bytes have been dealt with, and `written` bytes of the result are there. -/
inductive Makes : Nat → Nat → List Char → List Replacement → List Char → List Edit → Prop
  | copy (copied written : Nat) (text : List Char) : Makes copied written text [] text []
  | replace {copied written : Nat} {before inside after code : List Char} {edits : List Edit}
      {replacement : Replacement} {later : List Replacement}
      (hstart : replacement.span.start = copied + byteSize before)
      (hstop : replacement.span.stop = replacement.span.start + byteSize inside)
      (hlater : Makes replacement.span.stop
        (written + byteSize before + byteSize replacement.text.toList) after later code edits) :
      Makes copied written (before ++ inside ++ after) (replacement :: later)
        (before ++ replacement.text.toList ++ code)
        (⟨replacement.target, replacement.span, ⟨written + byteSize before,
          written + byteSize before + byteSize replacement.text.toList⟩⟩ :: edits)

/-- The replacement puts another text in the place of some characters of the source. -/
def Changes (source : List Char) (replacement : Replacement) : Prop :=
  ∃ inside, Slice source replacement.span inside ∧ inside ≠ replacement.text.toList

variable {source : List Char} {replacements : List Replacement}

/-- A text is divided where its parts meet. -/
theorem divide_append {copied : Nat} {before inside after : List Char} {span : Span}
    (hstart : span.start = copied + byteSize before)
    (hstop : span.stop = span.start + byteSize inside) :
  divide copied (before ++ inside ++ after) span = some (before, inside, after)
  := by
  have hbefore : span.start - copied = byteSize before := by omega
  have hinside : span.stop - span.start = byteSize inside := by omega
  have hguard : copied ≤ span.start ∧ span.start ≤ span.stop := by omega
  rw [divide, guard, if_pos (by simpa using hguard)]
  simp [hbefore, hinside, Text.cutAt_byteSize_append]

/-- What a text is divided into. -/
theorem divide_eq_some_iff {copied : Nat} {text before inside after : List Char} {span : Span} :
  divide copied text span = some (before, inside, after) ↔
    text = before ++ inside ++ after ∧ span.start = copied + byteSize before ∧
      span.stop = span.start + byteSize inside
  := by
  constructor
  · intro h
    simp only [divide, Option.bind_eq_bind, Option.bind_eq_some_iff, Prod.exists,
      Text.cutAt_eq_some_iff, Option.guard_eq_some', Bool.and_eq_true, decide_eq_true_eq,
      Option.some.injEq, Prod.mk.injEq] at h
    obtain ⟨-, hle, _, _, ⟨rfl, hbefore⟩, _, _, ⟨rfl, hinside⟩, rfl, rfl, rfl⟩ := h
    refine ⟨(List.append_assoc _ _ _).symm, ?_, ?_⟩ <;> omega
  · rintro ⟨rfl, hstart, hstop⟩
    exact divide_append hstart hstop

/-- What a source is made of if what is left of it is divided. -/
theorem eq_append_of_divide {passed text before inside after : List Char} {span : Span}
    (hsource : source = passed ++ text)
    (h : divide (byteSize passed) text span = some (before, inside, after)) :
  source = passed ++ before ++ inside ++ after ∧ span.start = byteSize (passed ++ before) ∧
    span.stop = byteSize (passed ++ before ++ inside)
  := by
  obtain ⟨rfl, hstart, hstop⟩ := divide_eq_some_iff.mp h
  simp only [hsource, hstop, hstart, List.append_assoc, Text.byteSize_append, Nat.add_assoc,
    and_self]

/-- What is left of a source is divided by a slice of it. -/
theorem slice_of_divide {passed text before inside after : List Char} {span : Span}
    (hsource : source = passed ++ text)
    (h : divide (byteSize passed) text span = some (before, inside, after)) :
  Slice source span inside
  := by
  obtain ⟨hparts, hstart, hstop⟩ := eq_append_of_divide hsource h
  refine ⟨passed ++ before, after, hparts, hstart, ?_⟩
  rw [hstop, hstart, Text.byteSize_append (passed ++ before)]

/-- What is left of a source is not divided by a span that starts in front of it, or is none of
the source. -/
theorem divide_eq_none_iff {passed text : List Char} {span : Span}
    (hsource : source = passed ++ text) :
  divide (byteSize passed) text span = none ↔
    span.start < byteSize passed ∨ ∀ inside, ¬ Slice source span inside
  := by
  have hsome : (∃ parts, divide (byteSize passed) text span = some parts) ↔
      byteSize passed ≤ span.start ∧ ∃ inside, Slice source span inside := by
    constructor
    · rintro ⟨⟨before, inside, after⟩, hdivide⟩
      have hstart := (divide_eq_some_iff.mp hdivide).2.1
      exact ⟨by omega, inside, slice_of_divide hsource hdivide⟩
    · rintro ⟨hle, inside, before, after, hslice, hstart, hstop⟩
      rw [hsource, List.append_assoc] at hslice
      obtain ⟨middle, rfl, rfl⟩ := Text.exists_append_of_byteSize_le hslice (by omega)
      rw [Text.byteSize_append] at hstart
      refine ⟨(middle, inside, after), divide_eq_some_iff.mpr ⟨?_, hstart, hstop⟩⟩
      rw [List.append_assoc]
  rw [← Option.not_isSome_iff_eq_none, Option.isSome_iff_exists, hsome, not_and_or, not_exists,
    Nat.not_le]

/-- Replacements that are in order and change the source are all made. -/
theorem spliceFrom_makes (passed : List Char) {text : List Char} {copied written stop : Nat}
    (hsource : source = passed ++ text) (hcopied : copied = byteSize passed)
    (hrow : Row copied (replacements.map Replacement.span) stop)
    (hchanges : ∀ replacement ∈ replacements, replacement.Changes source) :
  Makes copied written text replacements (spliceFrom copied written text replacements).1
    (spliceFrom copied written text replacements).2
  := by
  induction replacements generalizing passed text copied written with
  | nil => apply Makes.copy
  | cons replacement later ih =>
    rw [List.forall_mem_cons] at hchanges
    obtain ⟨⟨inside, ⟨before, after, hslice, hstart, hstop⟩, hne⟩, hlater⟩ := hchanges
    obtain ⟨hle, -, hrow⟩ := hrow
    rw [hsource, List.append_assoc] at hslice
    obtain ⟨middle, rfl, rfl⟩ := Text.exists_append_of_byteSize_le hslice (by omega)
    rw [Text.byteSize_append, ← hcopied] at hstart
    rw [← List.append_assoc, spliceFrom, divide_append hstart hstop]
    simp only [hne, if_false]
    apply Makes.replace hstart hstop
    apply ih (passed ++ middle ++ inside)
    · rw [hsource]
      simp
    · simp only [Text.byteSize_append]
      omega
    · apply hrow
    · apply hlater

/-! ### Order -/

/-- In the order no replacement comes before another one that precedes it. -/
theorem inOrder_sorted (replacements : List Replacement) :
  (inOrder replacements).Pairwise fun a b => b.span.precedes a.span = false
  := by
  apply List.Pairwise.imp _ (List.pairwise_mergeSort _ _ _)
  · simp
  · intro a b c
    simp [Span.precedes]
    omega
  · intro a b
    simp [Span.precedes]
    omega

/-- Replacements that lie apart are a row when they are in order. -/
theorem row_inOrder (source : List Char)
    (hapart : (replacements.map Replacement.span).Pairwise Span.Apart)
    (hchanges : ∀ replacement ∈ replacements, replacement.Changes source) :
  Row 0 ((inOrder replacements).map Replacement.span) (byteSize source)
  := by
  have hperm : (inOrder replacements).Perm replacements := List.mergeSort_perm _ _
  have hspan : ∀ span ∈ (inOrder replacements).map Replacement.span,
      span.start ≤ span.stop ∧ span.stop ≤ byteSize source := by
    intro span hmem
    obtain ⟨replacement, hin, rfl⟩ := List.mem_map.mp hmem
    obtain ⟨inside, hslice, -⟩ := hchanges replacement (hperm.subset hin)
    apply hslice.le
  have hsorted : ((inOrder replacements).map Replacement.span).Pairwise fun a b =>
      b.precedes a = false := List.pairwise_map.mpr (inOrder_sorted replacements)
  have hapart' := (hperm.map Replacement.span).symm.pairwise hapart Span.Apart.symm
  apply Row.of_pairwise (Nat.zero_le _)
  · intro span hmem
    apply And.intro (Nat.zero_le _) (hspan span hmem)
  · apply (hsorted.and hapart').imp_of_mem
    rintro a b ha hb ⟨hprecedes, hapart⟩
    have ha := (hspan a ha).1
    have hb := (hspan b hb).1
    rw [Span.precedes_eq_false_iff] at hprecedes
    obtain hapart | hapart := hapart
    · apply hapart
    · omega

/-- Replacements that lie apart and change the source are all made. -/
theorem splice_makes (source : String)
    (hapart : (replacements.map Replacement.span).Pairwise Span.Apart)
    (hchanges : ∀ replacement ∈ replacements, replacement.Changes source.toList) :
  Makes 0 0 source.toList (inOrder replacements) (splice source replacements).code.toList
    (splice source replacements).edits
  := by
  have hperm : (inOrder replacements).Perm replacements := List.mergeSort_perm _ _
  simp only [splice, String.toList_ofList]
  apply spliceFrom_makes [] rfl rfl (row_inOrder source.toList hapart hchanges)
  intro replacement hmem
  apply hchanges replacement (hperm.subset hmem)

/-! ### Replacements that are made -/

/-- The replacements that are made are in order. -/
theorem Makes.row {copied written : Nat} {text code : List Char} {edits : List Edit}
    (h : Makes copied written text replacements code edits) :
  Row copied (replacements.map Replacement.span) (copied + byteSize text)
  := by
  induction h with
  | copy => apply Nat.le_add_right
  | replace hstart hstop _ ih =>
    refine ⟨by omega, by omega, ?_⟩
    apply ih.mono_stop
    simp only [Text.byteSize_append]
    omega

/-- The edits are those of the replacements, in their order. -/
theorem Makes.edits_eq {copied written : Nat} {text code : List Char} {edits : List Edit}
    (h : Makes copied written text replacements code edits) :
  edits.map (fun edit => (edit.target, edit.replaced)) =
    replacements.map fun replacement => (replacement.target, replacement.span)
  := by
  induction h with
  | copy => rfl
  | replace _ _ _ ih => rw [List.map_cons, List.map_cons, ih]

theorem Makes.replaced_eq {copied written : Nat} {text code : List Char} {edits : List Edit}
    (h : Makes copied written text replacements code edits) :
  edits.map Edit.replaced = replacements.map Replacement.span
  := by
  have hpairs := congrArg (List.map Prod.snd) h.edits_eq
  rw [List.map_map, List.map_map] at hpairs
  exact hpairs

/-- There is one text in which all replacements are made. -/
theorem Makes.unique {copied written written' : Nat} {text code code' : List Char}
    {edits edits' : List Edit} (h : Makes copied written text replacements code edits)
    (h' : Makes copied written' text replacements code' edits') :
  code = code'
  := by
  induction h generalizing written' code' edits' with
  | copy => cases h' with | copy => rfl
  | @replace _ _ before inside after _ _ replacement _ hstart hstop _ ih =>
    generalize htext : before ++ inside ++ after = text at h'
    cases h' with
    | @replace _ _ before' inside' after' _ _ _ _ hstart' hstop' hlater' =>
      rw [List.append_assoc, List.append_assoc] at htext
      obtain ⟨rfl, hinside⟩ := Text.append_inj_of_byteSize htext (by omega)
      obtain ⟨rfl, rfl⟩ := Text.append_inj_of_byteSize hinside (by omega)
      rw [ih hlater']

/-- Replacements that are in order stay so. -/
theorem inOrder_eq_self {start stop : Nat}
    (h : Row start (replacements.map Replacement.span) stop) :
  inOrder replacements = replacements
  := by
  apply List.mergeSort_of_pairwise
  have hpairwise := List.pairwise_map.mp h.pairwise
  apply hpairwise.imp_of_mem
  intro a b ha hb hab
  have ha := h.of_mem (List.mem_map_of_mem ha)
  have hb := h.of_mem (List.mem_map_of_mem hb)
  rw [Bool.not_eq_true', Span.precedes_eq_false_iff]
  omega

/-- There is one order of replacements with different spans. -/
theorem inOrder_congr {found : List Replacement} (hperm : found.Perm replacements)
    (hdistinct : (replacements.map Replacement.span).Nodup) :
  inOrder found = inOrder replacements
  := by
  have hfound : (inOrder found).Perm replacements := (List.mergeSort_perm _ _).trans hperm
  have hperm' : (inOrder found).Perm (inOrder replacements) :=
    hfound.trans (List.mergeSort_perm _ _).symm
  apply hperm'.eq_of_pairwise _ (inOrder_sorted found) (inOrder_sorted replacements)
  intro a b ha hb hab hba
  have hspan : a.span = b.span := Span.eq_of_precedes_eq_false hba hab
  have hb' := (List.mergeSort_perm _ _).subset hb
  exact List.inj_on_of_nodup_map hdistinct (hfound.subset ha) hb' hspan

/-- There is one order of replacements that lie apart and are not of nothing. -/
theorem inOrder_eq_of_perm {start stop : Nat} {found : List Replacement}
    (hperm : found.Perm replacements) (hrow : Row start (replacements.map Replacement.span) stop)
    (hproper : ∀ replacement ∈ replacements, replacement.span.start < replacement.span.stop) :
  inOrder found = replacements
  := by
  have hdistinct : (replacements.map Replacement.span).Nodup := by
    apply hrow.pairwise.imp_of_mem
    rintro _ b ha hb hle rfl
    obtain ⟨replacement, hmem, rfl⟩ := List.mem_map.mp hb
    have hlt := hproper replacement hmem
    omega
  rw [inOrder_congr hperm hdistinct, inOrder_eq_self hrow]

/-! ### Replacements from left to right -/

/-- The text in which all replacements are made, wherever in the result it stands. -/
def Rewrites (copied : Nat) (text : List Char) (replacements : List Replacement)
    (code : List Char) : Prop :=
  ∀ written, ∃ edits, Makes copied written text replacements code edits

variable {copied : Nat} {later code : List Char}

theorem Rewrites.nil (copied : Nat) (text : List Char) :
  Rewrites copied text [] text
  := fun written => ⟨[], .copy copied written text⟩

/-- A text in front that is copied. -/
theorem Rewrites.append_left (text : List Char)
    (h : Rewrites (copied + byteSize text) later replacements code) :
  Rewrites copied (text ++ later) replacements (text ++ code)
  := by
  intro written
  obtain ⟨edits, h⟩ := h (written + byteSize text)
  cases h with
  | copy => exact ⟨[], .copy copied written _⟩
  | @replace _ _ before inside after code _ replacement _ hstart hstop hlater =>
    have hstart' : replacement.span.start = copied + byteSize (text ++ before) := by
      rw [hstart, Text.byteSize_append, Nat.add_assoc]
    rw [Nat.add_assoc written, ← Text.byteSize_append] at hlater
    have hmakes := Makes.replace hstart' hstop hlater
    simp only [List.append_assoc] at hmakes ⊢
    exact ⟨_, hmakes⟩

/-- A text in front that is replaced. -/
theorem Rewrites.replace {inside : List Char} {replacement : Replacement}
    (hspan : replacement.span = ⟨copied, copied + byteSize inside⟩)
    (h : Rewrites (copied + byteSize inside) later replacements code) :
  Rewrites copied (inside ++ later) (replacement :: replacements)
    (replacement.text.toList ++ code)
  := by
  intro written
  obtain ⟨edits, h⟩ := h (written + byteSize [] + byteSize replacement.text.toList)
  have hstart : replacement.span.start = copied + byteSize [] := by rw [hspan]; rfl
  have hstop : replacement.span.stop = replacement.span.start + byteSize inside := by rw [hspan]
  rw [← show replacement.span.stop = copied + byteSize inside by rw [hspan]] at h
  exact ⟨_, Makes.replace hstart hstop h⟩

end Replacement

end UtilityClasses
