import UtilityClasses.Proofs.Document.Syntax

/-!
# Texts that are read alike

What the scan of a document finds in front of a text depends on that text only as far as the
first quote in it. `Alike` relates texts that differ at most behind a quote, and whatever fits
in front of one of them fits in front of the other.
-/

namespace UtilityClasses

open Scan Text

namespace Document

/-- The texts differ at most behind a quote that both of them have at the same place. -/
inductive Alike : List Char → List Char → Prop
  | refl (text : List Char) : Alike text text
  | quote (before : List Char) {delimiter : Char} (hquote : delimiter = '"' ∨ delimiter = '\'')
      (after after' : List Char) :
      Alike (before ++ delimiter :: after) (before ++ delimiter :: after')

variable {text later later' : List Char}

namespace Alike

theorem symm (h : Alike later later') :
  Alike later' later
  := by
  cases h with
  | refl => apply refl
  | quote before hquote after after' => apply quote before hquote

/-- The same text in front. -/
theorem append_left (text : List Char) (h : Alike later later') :
  Alike (text ++ later) (text ++ later')
  := by
  cases h with
  | refl => apply refl
  | quote before hquote after after' =>
    rw [← List.append_assoc, ← List.append_assoc]
    apply quote (text ++ before) hquote

theorem head?_eq (h : Alike later later') :
  later.head? = later'.head?
  := by
  cases h with
  | refl => rfl
  | quote before => cases before <;> rfl

theorem eq_nil (h : Alike later later') (hnil : later = []) :
  later' = []
  := by
  cases h with
  | refl => exact hnil
  | quote => simp at hnil

/-- The texts behind their blanks. -/
theorem dropWhile_isSpacing (h : Alike later later') :
  Alike (later.dropWhile isSpacing) (later'.dropWhile isSpacing)
  := by
  cases h with
  | refl => apply refl
  | @quote before delimiter hquote after after' =>
    have hspacing : isSpacing delimiter = false := by
      obtain rfl | rfl := hquote <;> decide
    induction before with
    | nil =>
      rw [List.nil_append, List.nil_append, List.dropWhile_cons_of_neg (by simp [hspacing]),
        List.dropWhile_cons_of_neg (by simp [hspacing])]
      apply quote [] hquote
    | cons c before ih =>
      by_cases hc : isSpacing c = true
      · rw [List.cons_append, List.cons_append, List.dropWhile_cons_of_pos hc,
          List.dropWhile_cons_of_pos hc]
        exact ih
      · rw [List.cons_append, List.cons_append, List.dropWhile_cons_of_neg hc,
          List.dropWhile_cons_of_neg hc]
        apply quote (c :: before) hquote

/-- The texts in small letters. -/
theorem map_toLower (h : Alike later later') :
  Alike (later.map Char.toLower) (later'.map Char.toLower)
  := by
  cases h with
  | refl => apply refl
  | quote before hquote after after' =>
    rw [List.map_append, List.map_append, List.map_cons, List.map_cons]
    apply quote
    obtain rfl | rfl := hquote
    · apply Or.inl rfl
    · apply Or.inr rfl

/-- A text without quotes with which one of the texts starts. -/
theorem isPrefix {needle : List Char} (h : Alike later later') (hdouble : '"' ∉ needle)
    (hsingle : '\'' ∉ needle) (hstarts : needle <+: later) :
  needle <+: later'
  := by
  cases h with
  | refl => exact hstarts
  | @quote before delimiter hquote after after' =>
    have hnot : delimiter ∉ needle := by
      obtain rfl | rfl := hquote
      · exact hdouble
      · exact hsingle
    have hbefore : needle <+: before := by
      rcases Nat.lt_or_ge before.length needle.length with hlt | hle
      · have hlonger : before ++ [delimiter] <+: needle := by
          apply List.prefix_of_prefix_length_le _ hstarts
          · simpa using Nat.succ_le_of_lt hlt
          · simp
        exfalso
        apply hnot
        apply hlonger.subset
        simp
      · apply List.prefix_of_prefix_length_le hstarts (List.prefix_append _ _) hle
    apply hbefore.trans (List.prefix_append _ _)

/-- Whether the texts start with a text without quotes, in whatever letters. -/
theorem startsWithFolded_eq {needle : List Char} (h : Alike later later')
    (hdouble : '"' ∉ needle.map Char.toLower) (hsingle : '\'' ∉ needle.map Char.toLower) :
  startsWithFolded needle later = startsWithFolded needle later'
  := by
  rw [startsWithFolded, startsWithFolded, Bool.eq_iff_iff, List.isPrefixOf_iff_prefix,
    List.isPrefixOf_iff_prefix]
  constructor
  · apply h.map_toLower.isPrefix hdouble hsingle
  · apply h.map_toLower.symm.isPrefix hdouble hsingle

/-! ### Lengths -/

theorem bareValue_cons (c : Char) (rest : List Char) :
  bareValue (c :: rest) =
    if ['/', '>'] <+: c :: rest ∨ isSpacing c = true ∨ c = '>' then 0 else bareValue rest + 1
  := by
  rw [bareValue.eq_def]
  split
  · next heq =>
    obtain ⟨rfl, rfl⟩ := List.cons.inj heq
    rw [if_pos (.inl (List.prefix_append ['/', '>'] _))]
  · next hslash heq =>
    obtain ⟨rfl, rfl⟩ := List.cons.inj heq
    have hnot : ¬ ['/', '>'] <+: c :: rest := by
      rintro ⟨later, hlater⟩
      obtain ⟨rfl, rfl⟩ := List.cons.inj hlater
      apply hslash later rfl rfl
    simp only [hnot, false_or, Bool.or_eq_true, decide_eq_true_eq]
  · next heq => simp at heq

/-- A value without quotes ends in front of both texts. -/
theorem bareValue_eq {value : List Char} (h : Alike later later')
    (hvalue : bareValue (value ++ later) = value.length) :
  bareValue (value ++ later') = value.length
  := by
  have hdouble : '"' ∉ ['/', '>'] := by decide
  have hsingle : '\'' ∉ ['/', '>'] := by decide
  induction value with
  | nil =>
    cases later with
    | nil => rw [h.eq_nil rfl, hvalue]
    | cons c rest =>
      obtain ⟨rest', rfl⟩ := List.head?_eq_some_iff.mp h.head?_eq.symm
      simp only [List.nil_append, bareValue_cons, List.length_nil] at hvalue ⊢
      split at hvalue
      · next hstop =>
        obtain hslash | hstop := hstop
        · rw [if_pos (.inl (h.isPrefix hdouble hsingle hslash))]
        · rw [if_pos (.inr hstop)]
      · contradiction
  | cons c value ih =>
    simp only [List.cons_append, bareValue_cons, List.length_cons] at hvalue ⊢
    split at hvalue
    · contradiction
    · next hgo =>
      rw [if_neg, ih (by omega)]
      rintro (hslash | hstop)
      · apply hgo
        apply Or.inl ((h.append_left (c :: value)).symm.isPrefix hdouble hsingle hslash)
      · apply hgo (.inr hstop)

/-- The content of an element that is not markup ends in front of both texts. -/
theorem rawText_eq {name raw : List Char} (h : Alike later later')
    (hdouble : '"' ∉ name.map Char.toLower) (hsingle : '\'' ∉ name.map Char.toLower)
    (hraw : rawText name (raw ++ later) = raw.length) :
  rawText name (raw ++ later') = raw.length
  := by
  have hfolded : ∀ {text text'}, Alike text text' →
      startsWithFolded ('<' :: '/' :: name) text = startsWithFolded ('<' :: '/' :: name) text' := by
    intro text text' h
    apply h.startsWithFolded_eq
    · simpa using hdouble
    · simpa using hsingle
  induction raw with
  | nil =>
    cases later with
    | nil => rw [h.eq_nil rfl, hraw]
    | cons c rest =>
      obtain ⟨rest', rfl⟩ := List.head?_eq_some_iff.mp h.head?_eq.symm
      rw [List.nil_append, rawText] at hraw ⊢
      rw [hfolded h] at hraw
      split at hraw
      · next hstop => rw [if_pos hstop, List.length_nil]
      · contradiction
  | cons c raw ih =>
    have hcons := hfolded (h.append_left (c :: raw))
    rw [List.cons_append, List.cons_append] at hcons
    rw [List.cons_append, rawText] at hraw ⊢
    rw [← hcons]
    split at hraw
    · contradiction
    · next hgo =>
      rw [if_neg hgo, ih (by simpa using hraw), List.length_cons]

end Alike

/-! ### What fits -/

theorem NameFits.alike {name : List Char} (hfits : NameFits name later)
    (h : Alike later later') :
  NameFits name later'
  := ⟨hfits.ne_nil, hfits.all, h.head?_eq ▸ hfits.next⟩

theorem ValueFits.alike {quote : Quote} {value : List Char}
    (hfits : ValueFits quote value later) (h : Alike later later') :
  ValueFits quote value later'
  := by
  cases hfits with
  | quoted hquote hvalue => apply ValueFits.quoted hquote hvalue
  | unquoted hne hdouble hsingle hvalue =>
    apply ValueFits.unquoted hne hdouble hsingle (h.bareValue_eq hvalue)

theorem Part.Fits.alike {part : Part} (hfits : part.Fits later) (h : Alike later later') :
  part.Fits later'
  := by
  cases hfits with
  | stray hspacing hname hclosing hslash =>
    rw [h.head?_eq] at hslash
    apply Part.Fits.stray hspacing hname hclosing hslash
  | bare hname hvalue =>
    rw [h.dropWhile_isSpacing.head?_eq] at hvalue
    apply Part.Fits.bare (hname.alike h) hvalue
  | valued hname hbefore hafter hvalue =>
    apply Part.Fits.valued hname hbefore hafter (hvalue.alike h)

theorem UpTo.alike {needle body : List Char} (hbody : UpTo needle body later)
    (h : Alike later later') :
  UpTo needle body later'
  := by
  cases hbody with
  | found hbody => apply UpTo.found hbody
  | missing hbody =>
    rw [h.eq_nil rfl]
    apply UpTo.missing hbody

theorem Skips.alike {dialect : Dialect} {passed : List Char}
    (hfits : Skips dialect passed later) (h : Alike later later') :
  Skips dialect passed later'
  := by
  cases hfits with
  | comment hbody => apply Skips.comment hbody
  | @markup c body _ hc hcomment hbody =>
    apply Skips.markup hc _ (hbody.alike h)
    intro hstarts
    apply hcomment
    apply (h.append_left (c :: body)).symm.isPrefix _ _ hstarts <;> decide
  | angle hnext =>
    rw [h.head?_eq] at hnext
    apply Skips.angle hnext
  | interpolation hdialect hbody => apply Skips.interpolation hdialect (hbody.alike h)
  | brace hnext =>
    rw [h.head?_eq] at hnext
    apply Skips.brace hnext

/-- The content that belongs to a tag ends in front of both texts. -/
theorem Tag.rawLength_eq {name raw : List Char} {selfClosing : Bool} (h : Alike later later')
    (hraw : Tag.rawLength name selfClosing (raw ++ later) = raw.length) :
  Tag.rawLength name selfClosing (raw ++ later') = raw.length
  := by
  cases selfClosing with
  | true => exact hraw
  | false =>
    simp only [Tag.rawLength, Bool.false_eq_true, if_false] at hraw ⊢
    cases hfind : rawTextElements.find? (· = name.map Char.toLower) with
    | none => rwa [hfind] at hraw
    | some found =>
      rw [hfind] at hraw
      have hquotes : ∀ element ∈ rawTextElements,
          '"' ∉ element.map Char.toLower ∧ '\'' ∉ element.map Char.toLower := by decide
      have hfound := hquotes found (List.mem_of_find?_eq_some hfind)
      apply h.rawText_eq hfound.1 hfound.2 hraw

end Document

end UtilityClasses
