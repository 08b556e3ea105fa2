import UtilityClasses.Proofs.Document.Tag

/-!
# Pieces of documents

What the scan of a document without containers finds where the text is over: what it passes
over, or a tag with the content that belongs to it.
-/

namespace UtilityClasses

open Scan Text

namespace Document

variable {context : Context} {s s' : State}

theorem runs_skipPast_iff {needle : List Char} {u : Unit} :
  Runs (discard (skipPast needle)) s u s' ↔
    ∃ text, UpTo needle text s'.rest ∧ s.Passes text s'
  := by
  rw [runs_discard]
  constructor
  · rintro ⟨found, h⟩
    cases found with
    | true =>
      obtain ⟨body, hbody, hpasses⟩ := runs_skipPast_true_iff.mp h
      exact ⟨body ++ needle, .found hbody, hpasses⟩
    | false =>
      obtain ⟨hmissing, rfl⟩ : offsetOf needle s.rest = none ∧ s' = s.after s.rest.length := by
        simpa [runs_skipPast] using h
      use s.rest
      constructor
      · rw [State.after_rest, List.drop_length]
        apply UpTo.missing hmissing
      · apply State.passes_after (List.append_nil _).symm
  · rintro ⟨text, hupTo, hpasses⟩
    generalize hlater : s'.rest = later at hupTo
    cases hupTo with
    | found hbody => exact ⟨true, runs_skipPast_true_iff.mpr ⟨_, hbody, hpasses⟩⟩
    | missing hbody =>
      use false
      have hrest := hpasses.ahead
      rw [hlater, List.append_nil] at hrest
      rw [runs_skipPast, hrest]
      apply Or.inr ⟨hbody, rfl, hpasses.eq_after⟩

/-! ### Tags -/

/-- More elements have been found. -/
def adding (state : State) (elements : List Element) : State :=
  { state with elements := state.elements ++ elements.toArray }

@[simp]
theorem adding_nil (state : State) :
  adding state [] = state
  := by
  simp [adding]

@[simp]
theorem adding_rest (state : State) (elements : List Element) :
  (adding state elements).rest = state.rest
  := rfl

@[simp]
theorem adding_pos (state : State) (elements : List Element) :
  (adding state elements).pos = state.pos
  := rfl

theorem rawText_le (name text : List Char) :
  rawText name text ≤ text.length
  := by
  induction text with
  | nil => simp [rawText]
  | cons c rest ih =>
    rw [rawText]
    split
    · simp
    · simpa using ih

theorem Tag.rawLength_le (name : List Char) (selfClosing : Bool) (later : List Char) :
  Tag.rawLength name selfClosing later ≤ later.length
  := by
  rw [Tag.rawLength]
  split
  · simp
  · split
    · apply rawText_le
    · simp

/-- The characters after a tag that belong to it. -/
theorem Tag.take_rawLength_iff {name raw later : List Char} {selfClosing : Bool} :
  (raw ++ later).take (Tag.rawLength name selfClosing (raw ++ later)) = raw ↔
    Tag.rawLength name selfClosing (raw ++ later) = raw.length
  := by
  constructor
  · intro h
    have hlength := congrArg List.length h
    rw [List.length_take_of_le (Tag.rawLength_le _ _ _)] at hlength
    apply hlength
  · intro h
    rw [h, List.take_left]

theorem runs_tag {name : String} {start : Nat} {selfClosing : Bool} :
  Runs (tag context name start) s selfClosing s' ↔
    ∃ attributes t, Runs (tagTail context name start context.budget []) s
      (selfClosing, attributes) t ∧ s' = adding t [⟨name, ⟨start, t.pos⟩, attributes⟩]
  := by
  simp only [tag, runs_bind, runs_spanFrom, runs_record, runs_pure, and_assoc, exists_and_left,
    exists_eq_left, exists_const]
  constructor
  · rintro ⟨⟨_, attributes⟩, t, htail, rfl, rfl⟩
    use attributes, t, htail
    simp [adding]
  · rintro ⟨attributes, t, htail, rfl⟩
    use (selfClosing, attributes), t, htail
    simp [adding]

/-- The content that belongs to a tag is passed over. -/
theorem runs_raw {name : List Char} {selfClosing : Bool} {u : Unit} :
  Runs (if selfClosing = true then return ()
    else
      match rawTextElements.find? (· = name.map Char.toLower) with
      | some raw => do skip (rawText raw (← Scan.rest))
      | none => return ()) s u s' ↔
    s' = s.after (Tag.rawLength name selfClosing s.rest)
  := by
  rw [Tag.rawLength]
  cases selfClosing with
  | true => simp
  | false =>
    cases rawTextElements.find? (· = name.map Char.toLower) with
    | none => simp
    | some raw => simp

/-- The element of a tag that is passed over. -/
theorem Tag.element_eq {tag : Tag} {t t' : State} (hname : s.Passes ('<' :: tag.name) t)
    (hopening : s.Passes tag.opening t') :
  tag.element s.pos =
    ⟨String.ofList tag.name, ⟨s.pos, t'.pos⟩, attributesFrom t.pos tag.parts⟩
  := by
  rw [Tag.element, hname.pos, hopening.pos]

/-- A tag does not end with its name. -/
theorem Tag.head?_tail_append (tag : Tag) (later : List Char) :
  (tag.tail ++ later).head? = tag.tail.head?
  := by
  cases htail : tag.tail with
  | nil =>
    rw [Tag.tail, Tag.closing] at htail
    split at htail <;> simp at htail
  | cons => rfl

/-- A tag of a document, and the content that belongs to it. -/
theorem runs_documentElement_iff (hdialect : context.dialect = .html ∨ context.dialect = .vue)
    (hbudget : s.rest.length < context.budget) {c : Char} {rest : List Char}
    (hrest : s.rest = '<' :: c :: rest) (hc : c.isAlpha = true) {u : Unit} :
  Runs (documentElement context) s u s' ↔
    ∃ (tag : Tag) (t : State), tag.Fits t.rest ∧ s.Passes tag.text t ∧
      s' = adding t [tag.element s.pos]
  := by
  have hhead : s.rest.head? = some '<' := by rw [hrest, List.head?_cons]
  have htagName : isTagNameChar c = true := by simp [isTagNameChar, isNameChar, isNameStart, hc]
  simp only [documentElement, runs_bind, runs_position, runs_skip_one hhead, runs_takeWhile_iff,
    and_assoc, exists_and_left, exists_eq_left, exists_const]
  constructor
  · rintro ⟨t₁, hangle, name, t₂, hname, hall, hnext, selfClosing, t₃, htag, h⟩
    obtain ⟨attributes, t₃, htail, rfl⟩ := runs_tag.mp htag
    obtain rfl := runs_raw.mp h
    obtain ⟨parts, ending, _, hparts, hending, hpasses, hresult⟩ :=
      exists_parts_of_tagTail hdialect htail
    obtain ⟨rfl, rfl⟩ := Prod.mk.inj hresult
    have hfront : s.Passes ('<' :: name) t₂ := State.passes_cons.mpr ⟨t₁, hangle, hname⟩
    have hraw : t₃.Passes (t₃.rest.take (Tag.rawLength name selfClosing t₃.rest))
        (t₃.after (Tag.rawLength name selfClosing t₃.rest)) := by
      rw [← State.after_length_take]
      apply State.passes_after (List.take_append_drop _ _).symm
    refine ⟨⟨name, parts, ending, selfClosing, _⟩, _, ?_,
      (hfront.trans hpasses).trans hraw, ?_⟩
    · constructor
      · have hfirst : t₁.rest = c :: rest := by
          have hahead := hangle.ahead
          rw [hrest] at hahead
          apply (List.cons.inj hahead).2.symm
        rw [hname.ahead] at hfirst
        cases name with
        | nil =>
          have hfalse := hnext c (by rw [List.nil_append] at hfirst; rw [hfirst]; rfl)
          simp [htagName] at hfalse
        | cons d name =>
          obtain ⟨rfl, -⟩ := List.cons.inj hfirst
          exact ⟨d, rfl, hc⟩
      · apply hall
      · intro d hd
        apply hnext d
        rw [hpasses.ahead]
        rw [← Tag.head?_tail_append _ t₃.rest] at hd
        apply hd
      · rw [← hraw.ahead]
        apply hparts
      · apply hending
      · rw [← Tag.take_rawLength_iff, ← hraw.ahead]
    · rw [Tag.element_eq hfront (hfront.trans hpasses)]
      rfl
  · rintro ⟨tag, t, hfits, hpasses, rfl⟩
    rw [Tag.text, Tag.opening] at hpasses
    obtain ⟨t₃, hopening, hraw⟩ := State.passes_append.mp hpasses
    obtain ⟨t₁, hangle, hopening⟩ := State.passes_cons.mp hopening
    obtain ⟨t₂, hname, htail⟩ := State.passes_append.mp hopening
    have hfront : s.Passes ('<' :: tag.name) t₂ := State.passes_cons.mpr ⟨t₁, hangle, hname⟩
    have hless : t₂.rest.length < context.budget := by
      have hlength := congrArg List.length hfront.ahead
      rw [List.length_append] at hlength
      omega
    have hparts : PartsFit tag.parts (tag.ending ++ Tag.closing tag.selfClosing ++ t₃.rest) := by
      rw [hraw.ahead]
      apply hfits.parts
    have hrun : Runs (tagTail context (String.ofList tag.name) s.pos context.budget []) t₂ _ t₃ :=
      runs_tagTail_of_parts hdialect hparts hfits.ending htail hless
    refine ⟨t₁, hangle, tag.name, t₂, hname, hfits.name, ?_, tag.selfClosing, _,
      runs_tag.mpr ⟨_, t₃, hrun, rfl⟩, runs_raw.mpr ?_⟩
    · rw [htail.ahead, Tag.head?_tail_append]
      apply hfits.next
    · have hlength : Tag.rawLength tag.name tag.selfClosing t₃.rest = tag.raw.length := by
        rw [hraw.ahead]
        apply hfits.raw
      rw [Tag.element_eq hfront (hfront.trans htail), hraw.eq_after, ← hlength]
      rfl

/-! ### Pieces -/

/-- A comment. -/
theorem runs_documentTag_comment {rest : List Char}
    (hrest : s.rest = ['<', '!', '-', '-'] ++ rest) {u : Unit} :
  Runs (documentTag context) s u s' ↔
    ∃ body, offsetOf ['-', '-', '>'] (body ++ ['-', '-', '>']) = some body.length ∧
      s.Passes (['<', '!', '-', '-'] ++ (body ++ ['-', '-', '>'])) s'
  := by
  have hopening : ∀ {u t}, Runs (skip 4) s u t ↔ s.Passes ['<', '!', '-', '-'] t :=
    fun {u t} => runs_skip_iff hrest rfl
  simp only [documentTag, runs_bind, runs_rest, and_assoc, exists_and_left, exists_eq_left]
  rw [hrest]
  simp only [List.cons_append, List.nil_append, runs_bind, runs_position, hopening, and_assoc,
    exists_and_left, exists_eq_left, exists_const]
  constructor
  · rintro ⟨t, hfront, found, t', hfound, h⟩
    cases found with
    | false => simp at h
    | true =>
      obtain rfl : s' = t' := by simpa using h
      obtain ⟨body, hbody, hpasses⟩ := runs_skipPast_true_iff.mp hfound
      exact ⟨body, hbody, hfront.trans hpasses⟩
  · rintro ⟨body, hbody, hpasses⟩
    obtain ⟨t, hfront, hpasses⟩ := State.passes_append.mp
      (show s.Passes (['<', '!', '-', '-'] ++ (body ++ ['-', '-', '>'])) s' from hpasses)
    refine ⟨t, hfront, true, s', runs_skipPast_true_iff.mpr ⟨body, hbody, hpasses⟩, ?_⟩
    simp

/-- The last character of a document. -/
theorem runs_documentTag_last (hrest : s.rest = ['<']) {u : Unit} :
  Runs (documentTag context) s u s' ↔ s.Passes ['<'] s'
  := by
  have hhead : s.rest.head? = some '<' := by rw [hrest, List.head?_cons]
  simp only [documentTag, runs_bind, runs_rest, and_assoc, exists_and_left, exists_eq_left]
  rw [hrest]
  simp only [runs_skip_one hhead]

/-- What starts with `<` and is no comment: a closing tag, a declaration or an instruction, an
element, or nothing. -/
theorem runs_documentTag_of_not_comment {c : Char} {rest : List Char}
    (hrest : s.rest = '<' :: c :: rest) (hcomment : ¬ ['!', '-', '-'] <+: c :: rest) {u : Unit} :
  Runs (documentTag context) s u s' ↔
    ((c = '/' ∨ c = '!' ∨ c = '?') ∧
      ∃ body, UpTo ['>'] body s'.rest ∧ s.Passes ('<' :: c :: body) s') ∨
    (c.isAlpha = true ∧ Runs (documentElement context) s u s') ∨
    ((c ≠ '/' ∧ c ≠ '!' ∧ c ≠ '?' ∧ c.isAlpha = false) ∧ s.Passes ['<'] s')
  := by
  have hhead : s.rest.head? = some '<' := by rw [hrest, List.head?_cons]
  have halpha : c.isAlpha = true → c ≠ '/' ∧ c ≠ '!' ∧ c ≠ '?' := by
    intro h
    refine ⟨?_, ?_, ?_⟩ <;> (rintro rfl; contradiction)
  simp only [documentTag, runs_bind, runs_rest, and_assoc, exists_and_left, exists_eq_left]
  rw [hrest]
  split
  · next heq =>
    obtain ⟨rfl, rfl⟩ := List.cons.inj (List.cons.inj heq).2
    exact absurd (List.prefix_append ['!', '-', '-'] _) hcomment
  · next d _ _ heq =>
    obtain ⟨rfl, rfl⟩ := List.cons.inj (List.cons.inj heq).2
    by_cases hc : c = '/' ∨ c = '!' ∨ c = '?'
    · rw [if_pos (by simpa [or_assoc] using hc)]
      simp only [runs_bind, runs_skip_two hrest, runs_skipPast_iff, exists_const]
      constructor
      · rintro ⟨t, hfront, body, hupTo, hpasses⟩
        exact .inl ⟨hc, body, hupTo, hfront.trans hpasses⟩
      · rintro (⟨-, body, hupTo, hpasses⟩ | ⟨hc', -⟩ | ⟨hslash, hbang, hquery, -⟩)
        · obtain ⟨t, hfront, hpasses⟩ := State.passes_append.mp
            (show s.Passes (['<', c] ++ body) s' from hpasses)
          exact ⟨t, hfront, body, hupTo, hpasses⟩
        · have hnot := halpha hc'
          simp [hnot] at hc
        · obtain hc | hc | hc := hc <;> contradiction
    · rw [if_neg (by simpa [or_assoc] using hc)]
      by_cases hc' : c.isAlpha = true
      · rw [if_pos hc']
        simp [hc, hc']
      · rw [if_neg hc', runs_skip_one hhead]
        simp_all
  · next hlong => exact absurd rfl (hlong _ _ _)

theorem Tag.Fits.exists_text_eq {tag : Tag} {later : List Char} (h : tag.Fits later) :
  ∃ c rest, tag.text = '<' :: c :: rest ∧ c.isAlpha = true
  := by
  obtain ⟨c, hhead, hc⟩ := h.head
  obtain ⟨name, hname⟩ := List.head?_eq_some_iff.mp hhead
  refine ⟨c, name ++ tag.tail ++ tag.raw, ?_, hc⟩
  rw [Tag.text, Tag.opening, hname]
  rfl

/-- What starts with `<` in a document. -/
theorem runs_documentTag_iff (hdialect : context.dialect = .html ∨ context.dialect = .vue)
    (hbudget : s.rest.length < context.budget) (hhead : s.rest.head? = some '<') {u : Unit} :
  Runs (documentTag context) s u s' ↔
    ∃ piece t, Piece.Fits context.dialect piece t.rest ∧ s.Passes piece.text t ∧
      s' = adding t (piece.element? s.pos).toList
  := by
  obtain ⟨text, hrest⟩ := List.head?_eq_some_iff.mp hhead
  constructor
  · intro h
    by_cases hcomment : ['!', '-', '-'] <+: text
    · obtain ⟨rest, rfl⟩ := hcomment
      obtain ⟨body, hbody, hpasses⟩ := (runs_documentTag_comment hrest).mp h
      exact ⟨.skipped _, s', .comment hbody, hpasses, (adding_nil s').symm⟩
    · cases text with
      | nil =>
        rw [runs_documentTag_last hrest] at h
        refine ⟨.skipped ['<'], s', .angle ?_, h, (adding_nil s').symm⟩
        have hnil : s'.rest = [] := by simpa [hrest] using h.ahead
        simp [hnil]
      | cons c rest =>
        obtain ⟨hc, body, hupTo, hpasses⟩ | ⟨hc, helement⟩ | ⟨hc, hpasses⟩ :=
          (runs_documentTag_of_not_comment hrest hcomment).mp h
        · refine ⟨.skipped _, s', .markup hc ?_ hupTo, hpasses, (adding_nil s').symm⟩
          have hahead := hrest.symm.trans hpasses.ahead
          rwa [(List.cons.inj hahead).2] at hcomment
        · obtain ⟨tag, t, hfits, hpasses, rfl⟩ :=
            (runs_documentElement_iff hdialect hbudget hrest hc).mp helement
          exact ⟨.element tag, t, hfits, hpasses, rfl⟩
        · refine ⟨.skipped ['<'], s', .angle ?_, hpasses, (adding_nil s').symm⟩
          have hahead : '<' :: c :: rest = '<' :: s'.rest := hrest.symm.trans hpasses.ahead
          rw [← (List.cons.inj hahead).2]
          rintro d ⟨⟩
          exact hc
  · rintro ⟨piece, t, hfits, hpasses, rfl⟩
    have hahead := hrest.symm.trans hpasses.ahead
    cases piece with
    | skipped text =>
      rw [Piece.element?, Option.toList_none, adding_nil]
      cases hfits with
      | comment hbody =>
        obtain rfl := (List.cons.inj hahead).2
        apply (runs_documentTag_comment hrest).mpr ⟨_, hbody, hpasses⟩
      | markup hc hcomment hbody =>
        obtain rfl := (List.cons.inj hahead).2
        apply (runs_documentTag_of_not_comment hrest hcomment).mpr
        apply Or.inl ⟨hc, _, hbody, hpasses⟩
      | angle hnext =>
        have hrest : s.rest = '<' :: t.rest := hpasses.ahead
        cases hlater : t.rest with
        | nil =>
          rw [hlater] at hrest
          apply (runs_documentTag_last hrest).mpr hpasses
        | cons c rest =>
          rw [hlater] at hrest hnext
          apply (runs_documentTag_of_not_comment hrest _).mpr
          · apply Or.inr (Or.inr ⟨hnext c rfl, hpasses⟩)
          · intro hstarts
            apply (hnext c rfl).2.1 (List.cons_prefix_cons.mp hstarts).1.symm
      | interpolation | brace => simp [Piece.text] at hahead
    | element tag =>
      obtain ⟨c, rest, htext, hc⟩ := Tag.Fits.exists_text_eq hfits
      rw [Piece.text, htext] at hahead
      obtain rfl := (List.cons.inj hahead).2
      have helement : Runs (documentElement context) s u _ :=
        (runs_documentElement_iff hdialect hbudget hrest hc).mpr ⟨tag, t, hfits, hpasses, rfl⟩
      apply (runs_documentTag_of_not_comment hrest _).mpr
      · apply Or.inr (Or.inl ⟨hc, helement⟩)
      · intro hstarts
        obtain rfl := (List.cons_prefix_cons.mp hstarts).1
        simp at hc

/-- What starts with a brace in the text of a document. -/
theorem runs_documentBraces_iff (hdialect : context.dialect = .html ∨ context.dialect = .vue)
    (hhead : s.rest.head? = some '\x7b') {u : Unit} :
  Runs (documentBraces context) s u s' ↔
    ∃ text, Skips context.dialect text s'.rest ∧ s.Passes text s'
  := by
  have hcontainers : context.dialect.hasContainers = false := by
    obtain h | h := hdialect <;> rw [h] <;> rfl
  obtain ⟨rest, hrest⟩ := List.head?_eq_some_iff.mp hhead
  simp only [documentBraces, hcontainers, Bool.false_eq_true, if_false, runs_bind, runs_rest,
    and_assoc, exists_and_left, exists_eq_left, Bool.and_eq_true, decide_eq_true_eq]
  rw [hrest, List.drop_one, List.tail_cons]
  by_cases hvue : context.dialect = .vue ∧ rest.head? = some '\x7b'
  · rw [if_pos hvue]
    obtain ⟨hvue, hnext⟩ := hvue
    obtain ⟨later, rfl⟩ := List.head?_eq_some_iff.mp hnext
    simp only [runs_bind, runs_skip_two hrest, runs_skipPast_iff, exists_const]
    constructor
    · rintro ⟨t, hfront, body, hbody, hpasses⟩
      exact ⟨_, .interpolation hvue hbody, hfront.trans hpasses⟩
    · rintro ⟨text, hskips, hpasses⟩
      have hahead := hrest.symm.trans hpasses.ahead
      cases hskips with
      | comment | markup | angle => simp at hahead
      | @interpolation body _ _ hbody =>
        obtain ⟨t, hfront, hpasses⟩ := State.passes_append.mp
          (show s.Passes (['\x7b', '\x7b'] ++ body) s' from hpasses)
        exact ⟨t, hfront, body, hbody, hpasses⟩
      | brace hnext =>
        have hlater : '\x7b' :: later = s'.rest := (List.cons.inj hahead).2
        rw [← hlater] at hnext
        exact absurd rfl (hnext hvue)
  · rw [if_neg hvue, runs_skip_one hhead]
    constructor
    · intro hpasses
      refine ⟨_, .brace ?_, hpasses⟩
      intro hdialect hnext
      have hahead : '\x7b' :: rest = '\x7b' :: s'.rest := hrest.symm.trans hpasses.ahead
      rw [← (List.cons.inj hahead).2] at hnext
      apply hvue ⟨hdialect, hnext⟩
    · rintro ⟨text, hskips, hpasses⟩
      have hahead := hrest.symm.trans hpasses.ahead
      cases hskips with
      | comment | markup | angle => simp at hahead
      | interpolation hdialect =>
        obtain rfl := (List.cons.inj hahead).2
        exact absurd ⟨hdialect, rfl⟩ hvue
      | brace => exact hpasses

/-- Where a piece starts the text is over. -/
theorem Piece.Fits.exists_cons {dialect : Dialect} {piece : Piece} {later : List Char}
    (h : piece.Fits dialect later) :
  ∃ c rest, piece.text = c :: rest ∧ isTextChar c = false
  := by
  cases piece with
  | skipped text => cases h <;> exact ⟨_, _, rfl, rfl⟩
  | element tag => exact ⟨'<', _, rfl, rfl⟩

/-- A piece of a document, where the text is over. -/
theorem runs_piece_iff (hdialect : context.dialect = .html ∨ context.dialect = .vue)
    (hbudget : s.rest.length < context.budget) {c : Char} (hhead : s.rest.head? = some c)
    (hc : isTextChar c = false) {u : Unit} :
  Runs (if c = '<' then documentTag context else documentBraces context) s u s' ↔
    ∃ piece t, Piece.Fits context.dialect piece t.rest ∧ s.Passes piece.text t ∧
      s' = adding t (piece.element? s.pos).toList
  := by
  by_cases hangle : c = '<'
  · subst hangle
    rw [if_pos rfl]
    apply runs_documentTag_iff hdialect hbudget hhead
  · obtain rfl : c = '\x7b' := by
      simpa [isTextChar, hangle] using hc
    rw [if_neg hangle, runs_documentBraces_iff hdialect hhead]
    constructor
    · rintro ⟨text, hskips, hpasses⟩
      exact ⟨.skipped text, s', hskips, hpasses, (adding_nil s').symm⟩
    · rintro ⟨piece, t, hfits, hpasses, rfl⟩
      cases piece with
      | skipped text =>
        rw [Piece.element?, Option.toList_none, adding_nil]
        exact ⟨text, hfits, hpasses⟩
      | element tag =>
        rw [hpasses.ahead] at hhead
        simp [Piece.text, Tag.text, Tag.opening] at hhead

end Document

end UtilityClasses
