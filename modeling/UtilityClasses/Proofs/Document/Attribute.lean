import UtilityClasses.Proofs.Document.Syntax
import UtilityClasses.Proofs.Scan.Passes

/-!
# Attributes of documents

What the scan of an attribute in a document without containers finds. Each step is described by
the part that it passes over, which has to fit in front of the text that is left.
-/

namespace UtilityClasses

open Scan Text

theorem Quote.delimit_of_char? {quote : Quote} {delimiter : Char}
    (h : quote.char? = some delimiter) (value : List Char) :
  quote.delimit value = delimiter :: (value ++ [delimiter])
  := by
  rw [Quote.delimit, h]

namespace Document

variable {context : Context} {s s' : State} {name : String}

/-! ### Values -/

theorem runs_quotedValue_iff {quote : Quote} {delimiter : Char} {value : Literal}
    (hquote : quote.char? = some delimiter) (hopening : s.rest.head? = some delimiter) :
  Runs (quotedValue quote delimiter name) s value s' ↔
    ∃ inside, delimiter ∉ inside ∧ s.Passes (quote.delimit inside) s' ∧
      value = ⟨quote, String.ofList inside, ⟨s.pos, s'.pos⟩⟩
  := by
  simp only [quotedValue, runs_bind, runs_position, runs_rest, runs_skip_one hopening,
    runs_takeWhile_iff, and_assoc, exists_and_left, exists_eq_left, exists_const,
    Quote.delimit_of_char? hquote]
  constructor
  · rintro ⟨t, hdelimiter, inside, t', hinside, hall, hnext, h⟩
    split at h
    · simp at h
    · next hrest =>
      obtain ⟨c, later, hlater⟩ := List.exists_cons_of_ne_nil (mt List.isEmpty_iff.mpr hrest)
      have hhead : t'.rest.head? = some c := by rw [hlater, List.head?_cons]
      obtain rfl : c = delimiter := by simpa using hnext c hhead
      simp only [runs_bind, runs_skip_one hhead, runs_spanFrom, runs_pure, and_assoc,
        exists_and_left, exists_eq_left, exists_const] at h
      obtain ⟨t'', hclosing, rfl, rfl⟩ := h
      use inside
      refine ⟨?_, ?_, rfl⟩
      · intro hmem
        simpa using hall _ hmem
      · apply State.passes_cons.mpr ⟨t, hdelimiter, hinside.trans hclosing⟩
  · rintro ⟨inside, hmem, hpasses, rfl⟩
    obtain ⟨t, hdelimiter, hpasses⟩ := State.passes_cons.mp hpasses
    obtain ⟨t', hinside, hclosing⟩ := State.passes_append.mp hpasses
    have hhead : t'.rest.head? = some delimiter := by rw [hclosing.ahead]; rfl
    refine ⟨t, hdelimiter, inside, t', hinside, ?_, ?_, ?_⟩
    · intro c hc
      simp only [decide_eq_true_eq]
      rintro rfl
      apply hmem hc
    · simp [hhead]
    · have hne : t'.rest.isEmpty = false := by rw [hclosing.ahead]; rfl
      simp only [hne, Bool.false_eq_true, if_false, runs_bind, runs_skip_one hhead,
        runs_spanFrom, runs_pure, and_assoc, exists_and_left, exists_eq_left, exists_const]
      use s', hclosing

/-- A value between quotes is read as such, whatever the dialect. -/
theorem runs_attributeValue_quoted {quote : Quote} {delimiter : Char} {inside : List Char}
    (hquote : quote.char? = some delimiter) (hmem : delimiter ∉ inside)
    (hpasses : s.Passes (quote.delimit inside) s') :
  Runs (attributeValue context name) s
    (some (.literal ⟨quote, String.ofList inside, ⟨s.pos, s'.pos⟩⟩)) s'
  := by
  have hopening := congrArg List.head? hpasses.ahead
  rw [Quote.delimit_of_char? hquote, List.cons_append, List.head?_cons] at hopening
  have hvalue : Runs (quotedValue quote delimiter name) s _ s' :=
    (runs_quotedValue_iff hquote hopening).mpr ⟨inside, hmem, hpasses, rfl⟩
  simp only [attributeValue, runs_bind, runs_position, runs_rest, and_assoc, exists_and_left,
    exists_eq_left]
  cases quote with
  | double =>
    cases hquote
    rw [if_pos hopening]
    simp only [runs_bind, runs_pure]
    exact ⟨_, s', hvalue, rfl, rfl⟩
  | single =>
    cases hquote
    rw [if_neg (by simp [hopening]), if_pos hopening]
    simp only [runs_bind, runs_pure]
    exact ⟨_, s', hvalue, rfl, rfl⟩
  | bare => simp [Quote.char?] at hquote

theorem bareValue_le (text : List Char) :
  bareValue text ≤ text.length
  := by
  fun_induction bareValue text with
  | case1 | case2 | case4 => simp
  | case3 _ _ _ _ ih => simp [ih]

/-- A value without quotes is over where a blank or the end of a tag is. -/
theorem bareValue_eq_zero {c : Char} {rest : List Char} (h : isSpacing c = true ∨ c = '>') :
  bareValue (c :: rest) = 0
  := by
  unfold bareValue
  split
  · rfl
  · next heq =>
    obtain ⟨rfl, rfl⟩ := List.cons.inj heq
    rw [if_pos]
    simpa using h
  · rfl

/-- What a value without quotes takes of a text. -/
theorem take_bareValue_iff {value later : List Char} :
  (value ++ later).take (bareValue (value ++ later)) = value ↔
    bareValue (value ++ later) = value.length
  := by
  constructor
  · intro h
    have hlength := congrArg List.length h
    rw [List.length_take_of_le (bareValue_le _)] at hlength
    apply hlength
  · intro h
    rw [h, List.take_left]

theorem runs_unquotedValue_iff {value : Literal} :
  Runs (unquotedValue name) s value s' ↔
    ∃ inside, inside ≠ [] ∧ bareValue (inside ++ s'.rest) = inside.length ∧
      s.Passes inside s' ∧ value = ⟨.bare, String.ofList inside, ⟨s.pos, s'.pos⟩⟩
  := by
  simp only [unquotedValue, runs_bind, runs_position, runs_rest, runs_take, and_assoc,
    exists_and_left, exists_eq_left]
  constructor
  · intro h
    split at h
    · simp at h
    · next hne =>
      simp only [runs_bind, runs_spanFrom, runs_pure, and_assoc, exists_and_left,
        exists_eq_left] at h
      obtain ⟨rfl, rfl⟩ := h
      have hpasses : s.Passes (s.rest.take (bareValue s.rest)) (s.after (bareValue s.rest)) := by
        rw [← State.after_length_take]
        apply State.passes_after (List.take_append_drop _ _).symm
      refine ⟨_, by simpa using hne, ?_, hpasses, rfl⟩
      rw [← take_bareValue_iff, ← hpasses.ahead]
  · rintro ⟨inside, hne, hlength, hpasses, rfl⟩
    have htake : s.rest.take (bareValue s.rest) = inside := by
      rw [hpasses.ahead, take_bareValue_iff, hlength]
    have hcount : bareValue s.rest = inside.length := by rw [hpasses.ahead, hlength]
    rw [htake, hcount, ← hpasses.eq_after, if_neg (by simpa using hne)]
    simp

/-- A value does not start with a blank. -/
theorem ValueFits.head {quote : Quote} {value later : List Char}
    (h : ValueFits quote value later) :
  ∀ c ∈ (quote.delimit value ++ later).head?, isSpacing c = false
  := by
  cases h with
  | quoted hquote hvalue =>
    rw [Quote.delimit_of_char? hquote]
    cases quote with
    | double | single => cases hquote; simp [isSpacing]
    | bare => simp [Quote.char?] at hquote
  | unquoted hne _ _ hvalue =>
    obtain ⟨c, rest, rfl⟩ := List.exists_cons_of_ne_nil hne
    intro d hd
    obtain rfl : c = d := by simpa [Quote.delimit, Quote.char?] using hd
    by_contra hspacing
    rw [List.cons_append, bareValue_eq_zero (.inl (by simpa using hspacing))] at hvalue
    simp at hvalue

theorem runs_attributeValue_iff (hdialect : context.dialect = .html ∨ context.dialect = .vue)
    {value : Option AttrValue} :
  Runs (attributeValue context name) s value s' ↔
    ∃ quote inside, ValueFits quote inside s'.rest ∧ s.Passes (quote.delimit inside) s' ∧
      value = some (.literal ⟨quote, String.ofList inside, ⟨s.pos, s'.pos⟩⟩)
  := by
  have hmarkup : context.dialect.isMarkup = true := by
    obtain h | h := hdialect <;> rw [h] <;> rfl
  have hcontainers : context.dialect.hasContainers = false := by
    obtain h | h := hdialect <;> rw [h] <;> rfl
  have helements : context.dialect.allowsElements = false := by
    obtain h | h := hdialect <;> rw [h] <;> rfl
  constructor
  · intro h
    simp only [attributeValue, runs_bind, runs_position, runs_rest, hmarkup, hcontainers,
      helements, Bool.and_false, Bool.false_eq_true, if_false, if_true, and_assoc,
      exists_and_left, exists_eq_left] at h
    split_ifs at h with hdouble hsingle
    · have hquote : Quote.double.char? = some '"' := rfl
      simp only [runs_bind, runs_pure, runs_quotedValue_iff hquote hdouble] at h
      obtain ⟨_, _, ⟨inside, hmem, hpasses, rfl⟩, rfl, rfl⟩ := h
      exact ⟨.double, inside, .quoted rfl hmem, hpasses, rfl⟩
    · have hquote : Quote.single.char? = some '\'' := rfl
      simp only [runs_bind, runs_pure, runs_quotedValue_iff hquote hsingle] at h
      obtain ⟨_, _, ⟨inside, hmem, hpasses, rfl⟩, rfl, rfl⟩ := h
      exact ⟨.single, inside, .quoted rfl hmem, hpasses, rfl⟩
    · simp only [runs_bind, runs_pure, runs_unquotedValue_iff] at h
      obtain ⟨_, _, ⟨inside, hne, hlength, hpasses, rfl⟩, rfl, rfl⟩ := h
      obtain ⟨c, rest, rfl⟩ := List.exists_cons_of_ne_nil hne
      rw [hpasses.ahead] at hdouble hsingle
      exact ⟨.bare, _, .unquoted hne hdouble hsingle hlength, hpasses, rfl⟩
  · rintro ⟨quote, inside, hfits, hpasses, rfl⟩
    cases hfits with
    | quoted hquote hmem => exact runs_attributeValue_quoted hquote hmem hpasses
    | unquoted hne hdouble hsingle hlength =>
      have hvalue : Runs (unquotedValue name) s _ s' :=
        runs_unquotedValue_iff.mpr ⟨inside, hne, hlength, hpasses, rfl⟩
      have hhead : s.rest.head? = inside.head? := hpasses.head? hne
      simp only [attributeValue, runs_bind, runs_position, runs_rest, hmarkup, hcontainers,
        helements, Bool.and_false, Bool.false_eq_true, if_false, if_true, and_assoc,
        exists_and_left, exists_eq_left]
      rw [hhead, if_neg hdouble, if_neg hsingle]
      simp only [runs_bind, runs_pure]
      exact ⟨_, s', hvalue, rfl, rfl⟩

/-! ### Attributes -/

/-- The rest of an attribute after its name: a value, or nothing. -/
theorem runs_attributeTail_iff (hdialect : context.dialect = .html ∨ context.dialect = .vue)
    {start : Nat} {attr : Attribute} :
  Runs (attributeTail context name start) s attr s' ↔
    (∃ before after quote inside, (∀ c ∈ before, isSpacing c = true) ∧
      (∀ c ∈ after, isSpacing c = true) ∧ ValueFits quote inside s'.rest ∧
      s.Passes (before ++ '=' :: after ++ quote.delimit inside) s' ∧
      attr = ⟨name, ⟨start, s.pos⟩,
        some (.literal ⟨quote, String.ofList inside,
          ⟨s.pos + byteSize (before ++ '=' :: after), s'.pos⟩⟩), ⟨start, s'.pos⟩⟩) ∨
    ((s.rest.dropWhile isSpacing).head? ≠ some '=' ∧ s' = s ∧
      attr = ⟨name, ⟨start, s.pos⟩, none, ⟨start, s.pos⟩⟩)
  := by
  constructor
  · intro h
    simp only [attributeTail, runs_bind, runs_spanFrom, runs_get, runs_rest, and_assoc,
      exists_and_left, exists_eq_left] at h
    obtain ⟨_, t, hspacing, h⟩ := h
    split at h
    · next hequals =>
      obtain ⟨before, hbefore, hallBefore, -⟩ := runs_skipSpacing_iff.mp hspacing
      simp only [runs_bind, runs_skip_one hequals, runs_skipSpacing_iff,
        runs_attributeValue_iff hdialect, runs_spanFrom, runs_pure, and_assoc,
        exists_const] at h
      obtain ⟨t₁, hequals, t₂, ⟨after, hafter, hallAfter, -⟩, _, t₃,
        ⟨quote, inside, hfits, hvalue, rfl⟩, _, _, rfl, rfl, rfl, rfl⟩ := h
      have hfront := hbefore.trans (State.passes_cons.mpr ⟨t₁, hequals, hafter⟩)
      apply Or.inl
      refine ⟨before, after, quote, inside, hallBefore, hallAfter, hfits,
        hfront.trans hvalue, ?_⟩
      rw [hfront.pos]
    · next hequals =>
      simp only [runs_bind, runs_set, runs_pure, exists_and_left, exists_eq_left,
        exists_const] at h
      obtain ⟨rfl, rfl⟩ := h
      apply Or.inr
      refine ⟨?_, rfl, rfl⟩
      rw [runs_skipSpacing.mp hspacing, State.after_rest, drop_length_takeWhile] at hequals
      apply hequals
  · rintro (⟨before, after, quote, inside, hallBefore, hallAfter, hfits, hpasses, rfl⟩ |
      ⟨hequals, rfl, rfl⟩)
    · simp only [attributeTail, runs_bind, runs_spanFrom, runs_get, runs_rest, and_assoc,
        exists_and_left, exists_eq_left]
      obtain ⟨t₃, hfront, hvalue⟩ := State.passes_append.mp hpasses
      obtain ⟨t, hbefore, hafter⟩ := State.passes_append.mp hfront
      obtain ⟨t₁, hequals, hafter⟩ := State.passes_cons.mp hafter
      have hhead : t.rest.head? = some '=' := by rw [hequals.ahead]; rfl
      refine ⟨(), t, runs_skipSpacing_iff.mpr ⟨before, hbefore, hallBefore, ?_⟩, ?_⟩
      · simp [hhead, isSpacing]
      · rw [if_pos hhead]
        simp only [runs_bind, runs_skip_one hhead, runs_skipSpacing_iff,
          runs_attributeValue_iff hdialect, runs_spanFrom, runs_pure, and_assoc,
          exists_const]
        refine ⟨t₁, hequals, t₃, ⟨after, hafter, hallAfter, ?_⟩, _, s',
          ⟨quote, inside, hfits, hvalue, rfl⟩, _, s', rfl, rfl, ?_, rfl⟩
        · rw [hvalue.ahead]
          apply hfits.head
        · rw [hfront.pos]
    · simp only [attributeTail, runs_bind, runs_spanFrom, runs_get, runs_rest, and_assoc,
        exists_and_left, exists_eq_left]
      refine ⟨(), s'.after (s'.rest.takeWhile isSpacing).length, by simp, ?_⟩
      rw [if_neg (by rwa [State.after_rest, drop_length_takeWhile])]
      simp

/-- A part of a tag, where neither a blank nor the end of the tag is. -/
theorem runs_attribute?_iff (hdialect : context.dialect = .html ∨ context.dialect = .vue)
    {c : Char} {rest : List Char} (hrest : s.rest = c :: rest) (hspacing : isSpacing c = false)
    (hclosing : c ≠ '>') (hslash : c = '/' → rest.head? ≠ some '>') {attr : Option Attribute} :
  Runs (attribute? context) s attr s' ↔
    ∃ part : Part, part.Fits s'.rest ∧ s.Passes part.text s' ∧ attr = part.attribute? s.pos
  := by
  have hhead : s.rest.head? = some c := by rw [hrest, List.head?_cons]
  simp only [attribute?, runs_bind, runs_position, runs_takeWhile_iff, and_assoc,
    exists_and_left, exists_eq_left]
  constructor
  · rintro ⟨name, t, hname, hall, hnext, h⟩
    split at h
    · next hempty =>
      obtain rfl : name = [] := by simpa using hempty
      obtain rfl := State.passes_nil.mp hname
      simp only [runs_bind, runs_skip_one hhead, runs_pure, exists_const] at h
      obtain ⟨t, hpasses, rfl, rfl⟩ := h
      have hlater : rest = s'.rest := by
        have hahead := hpasses.ahead
        rw [hrest, List.singleton_append] at hahead
        apply (List.cons.inj hahead).2
      refine ⟨.stray c, .stray hspacing ?_ hclosing ?_, hpasses, rfl⟩
      · apply hnext c hhead
      · rwa [← hlater]
    · next hempty =>
      have hne : name ≠ [] := by simpa using hempty
      simp only [runs_bind, runs_attributeTail_iff hdialect, runs_pure] at h
      obtain ⟨attr, t', htail, rfl, rfl⟩ := h
      obtain ⟨before, after, quote, inside, hallBefore, hallAfter, hfits, hpasses, rfl⟩ |
        ⟨hequals, rfl, rfl⟩ := htail
      · refine ⟨.valued name before after quote inside, .valued ⟨hne, hall, ?_⟩ hallBefore
          hallAfter hfits, ?_, ?_⟩
        · intro d hd
          apply hnext
          rw [hpasses.ahead]
          cases before with
          | nil => simpa using hd
          | cons => simpa using hd
        · simpa [Part.text, valueFront] using hname.trans hpasses
        · rw [hpasses.pos, hname.pos]
          simp [Part.attribute?, valueFront, byteSize, Nat.add_assoc]
      · refine ⟨.bare name, .bare ⟨hne, hall, hnext⟩ hequals, hname, ?_⟩
        rw [hname.pos]
        rfl
  · rintro ⟨part, hfits, hpasses, rfl⟩
    cases hfits with
    | stray _ hname =>
      rw [Part.text] at hpasses
      refine ⟨[], s, State.passes_nil.mpr rfl, by simp, ?_, ?_⟩
      · rw [hpasses.ahead]
        simpa using hname
      · rw [if_pos (by simp), runs_bind]
        refine ⟨(), s', runs_skip.mpr hpasses.eq_after, ?_⟩
        simp [Part.attribute?]
    | @bare name _ hname hvalue =>
      refine ⟨name, s', hpasses, hname.all, hname.next, ?_⟩
      rw [if_neg (by simpa using hname.ne_nil)]
      simp only [runs_bind, runs_pure]
      refine ⟨_, s', (runs_attributeTail_iff hdialect).mpr (.inr ⟨hvalue, rfl, rfl⟩), ?_, rfl⟩
      rw [Part.text] at hpasses
      rw [hpasses.pos]
      rfl
    | @valued name before after _ _ quote hname hbefore hafter hvalue =>
      rw [Part.text, valueFront, List.append_assoc, List.append_assoc] at hpasses
      obtain ⟨t, hfront, hpasses⟩ := State.passes_append.mp hpasses
      rw [← List.append_assoc] at hpasses
      refine ⟨name, t, hfront, hname.all, ?_, ?_⟩
      · intro d hd
        apply hname.next
        rw [hpasses.ahead] at hd
        cases before with
        | nil => simpa using hd
        | cons => simpa using hd
      · rw [if_neg (by simpa using hname.ne_nil)]
        simp only [runs_bind, runs_pure]
        refine ⟨_, s', (runs_attributeTail_iff hdialect).mpr (.inl ⟨before, after, quote, _,
          hbefore, hafter, hvalue, hpasses, rfl⟩), ?_, rfl⟩
        rw [hpasses.pos, hfront.pos]
        simp [Part.attribute?, valueFront, byteSize, Nat.add_assoc]

end Document

end UtilityClasses
