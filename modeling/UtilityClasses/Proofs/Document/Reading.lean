import UtilityClasses.Proofs.Document.Piece

/-!
# Reading documents

A document without containers can be read exactly if it is made of parts that fit, and then
its elements are those of its parts.
-/

namespace UtilityClasses

open Scan Text

namespace Document

variable {context : Context} {s s' : State}

/-! ### Elements that have been found -/

theorem adding_adding (state : State) (first later : List Element) :
  adding (adding state first) later = adding state (first ++ later)
  := by
  simp [adding]

/-- What has been found does not matter for what can be passed. -/
theorem passes_adding_iff {text : List Char} {elements : List Element} :
  (adding s elements).Passes text s' ↔ ∃ t, s.Passes text t ∧ s' = adding t elements
  := by
  constructor
  · intro h
    obtain rfl := h.eq_after
    use s.after text.length
    exact ⟨⟨h.ahead, rfl⟩, rfl⟩
  · rintro ⟨t, h, rfl⟩
    obtain rfl := h.eq_after
    exact ⟨h.ahead, rfl⟩

/-! ### Documents -/

/-- The step after two alternatives is the same. -/
theorem runs_ite_bind {α β : Type} {p : Prop} [Decidable p] {x y : Scan α} {f : α → Scan β}
    {b : β} :
  Runs (if p then x >>= f else y >>= f) s b s' ↔
    ∃ a t, Runs (if p then x else y) s a t ∧ Runs (f a) t b s'
  := by
  split <;> apply runs_bind

theorem length_rest_of_passes {text : List Char} {t : State} (h : s.Passes text t) :
  s.rest.length = text.length + t.rest.length
  := by
  rw [h.ahead, List.length_append]

/-- The scan of a document passes over pieces that fit, and over the text after them. -/
theorem exists_pieces_of_document (hdialect : context.dialect = .html ∨ context.dialect = .vue)
    {budget : Nat} {u : Unit} (hbudget : s.rest.length < context.budget)
    (h : Runs (document context budget) s u s') :
  ∃ pieces trailing t, PiecesFit context.dialect pieces trailing ∧
    (∀ c ∈ trailing, isTextChar c = true) ∧ s.Passes (piecesText pieces ++ trailing) t ∧
    t.rest = [] ∧ s' = adding t (elementsFrom s.pos pieces)
  := by
  induction budget generalizing s with
  | zero => simp [document] at h
  | succ budget ih =>
    simp only [document, runs_bind, runs_discard, runs_takeWhile_iff, runs_rest, and_assoc,
      exists_and_left, exists_eq_left, exists_const] at h
    obtain ⟨t, ⟨lead, hlead, hall, hnext⟩, h⟩ := h
    split at h
    · next hnil =>
      obtain rfl : s' = t := by simpa using h
      refine ⟨[], lead, s', trivial, hall, hlead, hnil, ?_⟩
      rw [elementsFrom, adding_nil]
    · next c rest hrest =>
      obtain ⟨_, t', hpiece, h⟩ := runs_ite_bind.mp h
      have hhead : t.rest.head? = some c := by rw [hrest, List.head?_cons]
      have hless : t.rest.length < context.budget := by
        have hlength := length_rest_of_passes hlead
        omega
      obtain ⟨piece, t₂, hfits, hpasses, rfl⟩ :=
        (runs_piece_iff hdialect hless hhead (hnext c hhead)).mp hpiece
      have hless : (adding t₂ (piece.element? t.pos).toList).rest.length < context.budget := by
        have hlength := length_rest_of_passes hpasses
        rw [adding_rest]
        omega
      obtain ⟨pieces, trailing, t₃, hpieces, htrailing, hothers, hnil, rfl⟩ := ih hless h
      obtain ⟨t₄, hlater, rfl⟩ := passes_adding_iff.mp hothers
      rw [adding_rest] at hnil
      refine ⟨(lead, piece) :: pieces, trailing, t₄, ⟨hall, ?_, hpieces⟩, htrailing, ?_, hnil, ?_⟩
      · rwa [hlater.ahead, hnil, List.append_nil] at hfits
      · simpa [piecesText_cons] using hlead.trans (hpasses.trans hlater)
      · rw [adding_adding, elementsFrom]
        simp [hpasses.pos, hlead.pos, Nat.add_assoc]

/-- The scan of a document finds the pieces that fit. -/
theorem runs_document_of_pieces (hdialect : context.dialect = .html ∨ context.dialect = .vue)
    {pieces : List (List Char × Piece)} {trailing : List Char} {budget : Nat} {t : State}
    (hpieces : PiecesFit context.dialect pieces trailing)
    (htrailing : ∀ c ∈ trailing, isTextChar c = true)
    (hpasses : s.Passes (piecesText pieces ++ trailing) t) (hnil : t.rest = [])
    (hcontext : s.rest.length < context.budget) (hbudget : s.rest.length < budget) :
  Runs (document context budget) s () (adding t (elementsFrom s.pos pieces))
  := by
  induction pieces generalizing s t budget with
  | nil =>
    obtain ⟨budget, rfl⟩ := Nat.exists_eq_add_one_of_ne_zero (Nat.ne_zero_of_lt hbudget)
    simp only [document, runs_bind, runs_discard, runs_takeWhile_iff, runs_rest, and_assoc,
      exists_and_left, exists_eq_left, exists_const]
    refine ⟨t, ⟨trailing, hpasses, htrailing, by simp [hnil]⟩, ?_⟩
    rw [hnil, elementsFrom, adding_nil]
    simp
  | cons first pieces ih =>
    obtain ⟨lead, piece⟩ := first
    obtain ⟨hall, hpiece, hpieces⟩ := hpieces
    obtain ⟨budget, rfl⟩ := Nat.exists_eq_add_one_of_ne_zero (Nat.ne_zero_of_lt hbudget)
    rw [piecesText_cons, List.append_assoc, List.append_assoc] at hpasses
    obtain ⟨t₁, hlead, hpasses⟩ := State.passes_append.mp hpasses
    obtain ⟨t₂, htext, hpasses⟩ := State.passes_append.mp hpasses
    have hfits : piece.Fits context.dialect t₂.rest := by
      rwa [hpasses.ahead, hnil, List.append_nil]
    obtain ⟨c, rest, hcons, hc⟩ := hfits.exists_cons
    have hrest : t₁.rest = c :: (rest ++ t₂.rest) := by rw [htext.ahead, hcons, List.cons_append]
    have hhead : t₁.rest.head? = some c := by rw [hrest, List.head?_cons]
    have hlength₁ := length_rest_of_passes hlead
    have hlength₂ := length_rest_of_passes htext
    rw [hcons, List.length_cons] at hlength₂
    have hpiece : Runs (if c = '<' then documentTag context else documentBraces context) t₁ () _ :=
      (runs_piece_iff hdialect (by omega) hhead hc).mpr ⟨piece, t₂, hfits, htext, rfl⟩
    have hless : t₂.rest.length < context.budget ∧ t₂.rest.length < budget := by omega
    have hmore : (adding t₂ (piece.element? t₁.pos).toList).Passes _ _ :=
      passes_adding_iff.mpr ⟨t, hpasses, rfl⟩
    have hothers := ih hpieces hmore hnil hless.1 hless.2
    simp only [document, runs_bind, runs_discard, runs_takeWhile_iff, runs_rest, and_assoc,
      exists_and_left, exists_eq_left, exists_const]
    refine ⟨t₁, ⟨lead, hlead, hall, ?_⟩, ?_⟩
    · rw [hhead]
      rintro d ⟨⟩
      exact hc
    · rw [hrest]
      apply runs_ite_bind.mpr
      refine ⟨(), _, hpiece, ?_⟩
      rw [adding_adding] at hothers
      rw [elementsFrom]
      simpa [htext.pos, hlead.pos, Nat.add_assoc] using hothers

/-! ### Elements by position -/

theorem start_le_of_mem_elementsFrom {pos : Nat} {pieces : List (List Char × Piece)}
    {element : Element} (h : element ∈ elementsFrom pos pieces) :
  pos ≤ element.span.start
  := by
  induction pieces generalizing pos with
  | nil => simp [elementsFrom] at h
  | cons first pieces ih =>
    obtain ⟨lead, piece⟩ := first
    rw [elementsFrom, List.mem_append] at h
    obtain h | h := h
    · cases piece with
      | skipped => simp [Piece.element?] at h
      | element tag =>
        obtain rfl : element = tag.element (pos + byteSize lead) := by
          simpa [Piece.element?] using h
        simp [Tag.element]
    · have hle := ih h
      omega

/-- The elements of a document are ordered by their positions. -/
theorem pairwise_elementsFrom (pos : Nat) (pieces : List (List Char × Piece)) :
  (elementsFrom pos pieces).Pairwise fun a b => a.span.start ≤ b.span.start
  := by
  induction pieces generalizing pos with
  | nil => apply List.Pairwise.nil
  | cons first pieces ih =>
    obtain ⟨lead, piece⟩ := first
    rw [elementsFrom, List.pairwise_append]
    refine ⟨?_, ih _, ?_⟩
    · cases piece with
      | skipped => apply List.Pairwise.nil
      | element => apply List.pairwise_singleton
    · intro a ha b hb
      have hle := start_le_of_mem_elementsFrom hb
      cases piece with
      | skipped => simp [Piece.element?] at ha
      | element tag =>
        obtain rfl : a = tag.element (pos + byteSize lead) := by
          simpa [Piece.element?] using ha
        simp only [byteSize_append] at hle
        simp only [Tag.element]
        omega

/-! ### Sources -/

/-- The markup of the pieces that have been found. -/
theorem markup_adding {text passed : List Char} {t : State} (pieces : List (List Char × Piece))
    (h : (State.initial text).Passes passed t) :
  (⟨(adding t (elementsFrom 0 pieces)).elements.toList.mergeSort
    (fun a b => a.span.start ≤ b.span.start), (adding t (elementsFrom 0 pieces)).arena⟩ :
    Markup) = ⟨elementsFrom 0 pieces, #[]⟩
  := by
  have helements : t.elements = #[] := h.elements
  have harena : t.arena = #[] := h.arena
  have hsorted : (elementsFrom 0 pieces).mergeSort (fun a b => a.span.start ≤ b.span.start) =
      elementsFrom 0 pieces := by
    apply List.mergeSort_of_pairwise
    simpa using pairwise_elementsFrom 0 pieces
  simp [adding, helements, harena, hsorted]

/-- A source without containers can be read exactly if it is made of parts that fit, and then
the elements of the parts are found, and no expression. -/
theorem parse_eq_ok_iff {dialect : Dialect} (hdialect : dialect = .html ∨ dialect = .vue)
    {text : String} {markup : Markup} :
  Markup.parse dialect text = .ok markup ↔
    ∃ document : Document, document.Fits dialect ∧ document.text = text.toList ∧
      markup = ⟨document.elements, #[]⟩
  := by
  have hsource : source (Context.ofLength dialect text.toList.length) =
      Scan.document (Context.ofLength dialect text.toList.length) (text.toList.length + 1) := by
    obtain rfl | rfl := hdialect <;> rfl
  rw [Markup.parse_eq_ok_iff_runs, hsource]
  constructor
  · rintro ⟨found, hrun, rfl⟩
    obtain ⟨pieces, trailing, t, hpieces, htrailing, hpasses, hnil, rfl⟩ :=
      exists_pieces_of_document hdialect (Nat.lt_succ_self _) hrun
    refine ⟨⟨pieces, trailing⟩, ⟨hpieces, htrailing⟩, ?_, ?_⟩
    · have hahead := hpasses.ahead
      rw [hnil, List.append_nil] at hahead
      apply hahead.symm
    · apply markup_adding pieces hpasses
  · rintro ⟨document, hfits, htext, rfl⟩
    have hrest : (State.initial text.toList).rest = document.text ++ [] := by
      rw [List.append_nil, htext]
      rfl
    have hpasses := State.passes_after hrest
    refine ⟨_, runs_document_of_pieces hdialect hfits.pieces hfits.trailing hpasses ?_
      (Nat.lt_succ_self _) (Nat.lt_succ_self _), ?_⟩
    · rw [State.after_rest, hrest, List.drop_left]
    · apply (markup_adding document.pieces hpasses).symm

end Document

end UtilityClasses
