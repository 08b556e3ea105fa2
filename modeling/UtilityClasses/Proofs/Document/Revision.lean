import UtilityClasses.Proofs.Document.Alike

/-!
# Documents with other values

Values of attributes are changed in a document. If every value that changes stands between
quotes and has no such quote in it afterwards, then the parts of the new document still fit:
up to the first changed value the text in front of which a part stands is the same.
-/

namespace UtilityClasses

open Scan Text

namespace Document

/-- The new value of an attribute, given its name and its value. -/
abbrev Revision := List Char → List Char → List Char

variable (revision : Revision)

/-! ### New values -/

/-- A part with its new value. -/
def Part.revise : Part → Part
  | valued name before after quote value =>
    valued name before after quote (revision name value)
  | part => part

/-- Parts with their new values. -/
def reviseParts (parts : List (List Char × Part)) : List (List Char × Part) :=
  parts.map fun (lead, part) => (lead, part.revise revision)

/-- A tag with its new values. -/
def Tag.revise (tag : Tag) : Tag :=
  { tag with parts := reviseParts revision tag.parts }

/-- A piece with its new values. -/
def Piece.revise : Piece → Piece
  | skipped text => skipped text
  | element tag => element (tag.revise revision)

/-- Pieces with their new values. -/
def revisePieces (pieces : List (List Char × Piece)) : List (List Char × Piece) :=
  pieces.map fun (lead, piece) => (lead, piece.revise revision)

end Document

/-- A document with its new values. -/
def Document.revise (revision : Document.Revision) (document : Document) : Document :=
  { document with pieces := Document.revisePieces revision document.pieces }

namespace Document

/-! ### One change after another -/

theorem Part.revise_revise (first second : Revision) (part : Part) :
  (part.revise first).revise second = part.revise fun name value => second name (first name value)
  := by
  cases part <;> rfl

theorem reviseParts_reviseParts (first second : Revision) (parts : List (List Char × Part)) :
  reviseParts second (reviseParts first parts) =
    reviseParts (fun name value => second name (first name value)) parts
  := by
  simp only [reviseParts, List.map_map]
  apply List.map_congr_left
  intro entry _
  simp only [Function.comp_apply, Part.revise_revise]

theorem Piece.revise_revise (first second : Revision) (piece : Piece) :
  (piece.revise first).revise second =
    piece.revise fun name value => second name (first name value)
  := by
  cases piece with
  | skipped => rfl
  | element tag => simp only [Piece.revise, Tag.revise, reviseParts_reviseParts]

/-- Values that are changed twice are changed at once. -/
theorem revise_revise (first second : Revision) (document : Document) :
  (document.revise first).revise second =
    document.revise fun name value => second name (first name value)
  := by
  simp only [Document.revise, revisePieces, List.map_map]
  congr 1
  apply List.map_congr_left
  intro entry _
  simp only [Function.comp_apply, Piece.revise_revise]

/-! ### Values that can be changed -/

/-- The value of the part stays the same, or it can stand between the same quotes. -/
def Part.Admits (revision : Revision) : Part → Prop
  | valued name _ _ quote value =>
    revision name value = value ∨
      ∃ delimiter, quote.char? = some delimiter ∧ delimiter ∉ revision name value
  | _ => True

/-- The values of a piece can be changed. -/
def Piece.Admits (revision : Revision) : Piece → Prop
  | skipped _ => True
  | element tag => ∀ entry ∈ tag.parts, entry.2.Admits revision

variable {revision : Revision} {later later' : List Char}

theorem Part.revise_alike {part : Part} (hadmits : part.Admits revision)
    (h : Alike later later') :
  Alike (part.text ++ later) ((part.revise revision).text ++ later')
  := by
  cases part with
  | stray | bare => apply h.append_left
  | valued name before after quote value =>
    obtain hsame | ⟨delimiter, hquote, -⟩ := hadmits
    · rw [Part.revise, hsame]
      apply h.append_left
    · simp only [Part.revise, Part.text, Quote.delimit, hquote, List.append_assoc,
        List.cons_append]
      apply Alike.quote _ (Quote.eq_of_char? hquote)

theorem Part.Fits.revise {part : Part} (hfits : part.Fits later) (h : Alike later later')
    (hadmits : part.Admits revision) :
  (part.revise revision).Fits later'
  := by
  have hfits := hfits.alike h
  cases hfits with
  | stray hspacing hname hclosing hslash => exact .stray hspacing hname hclosing hslash
  | bare hname hvalue => exact .bare hname hvalue
  | valued hname hbefore hafter hvalue =>
    apply Part.Fits.valued hname hbefore hafter
    obtain hsame | ⟨delimiter, hquote, hnot⟩ := hadmits
    · rwa [hsame]
    · apply ValueFits.quoted hquote hnot

/-! ### Tags -/

variable {parts : List (List Char × Part)}

theorem reviseParts_alike (hadmits : ∀ entry ∈ parts, entry.2.Admits revision)
    (h : Alike later later') :
  Alike (partsText parts ++ later) (partsText (reviseParts revision parts) ++ later')
  := by
  induction parts with
  | nil => exact h
  | cons first parts ih =>
    rw [List.forall_mem_cons] at hadmits
    simp only [reviseParts, List.map_cons, partsText, List.flatMap_cons, List.append_assoc]
    apply Alike.append_left
    apply Part.revise_alike hadmits.1 (ih hadmits.2)

theorem PartsFit.revise (hfits : PartsFit parts later) (h : Alike later later')
    (hadmits : ∀ entry ∈ parts, entry.2.Admits revision) :
  PartsFit (reviseParts revision parts) later'
  := by
  induction parts with
  | nil => trivial
  | cons first parts ih =>
    rw [List.forall_mem_cons] at hadmits
    obtain ⟨hlead, hpart, hparts⟩ := hfits
    exact ⟨hlead, hpart.revise (reviseParts_alike hadmits.2 h) hadmits.1, ih hparts hadmits.2⟩

theorem Tag.revise_tail_alike {tag : Tag} (hadmits : ∀ entry ∈ tag.parts, entry.2.Admits revision)
    (h : Alike later later') :
  Alike (tag.tail ++ later) ((tag.revise revision).tail ++ later')
  := by
  simp only [Tag.tail, List.append_assoc]
  apply reviseParts_alike hadmits
  apply Alike.append_left
  apply Alike.append_left _ h

theorem Tag.Fits.revise {tag : Tag} (hfits : tag.Fits later) (h : Alike later later')
    (hadmits : ∀ entry ∈ tag.parts, entry.2.Admits revision) :
  (tag.revise revision).Fits later'
  where
  head := hfits.head
  name := hfits.name
  next := by
    have halike := Tag.revise_tail_alike hadmits (Alike.refl [])
    rw [List.append_nil, List.append_nil] at halike
    rw [← halike.head?_eq]
    apply hfits.next
  parts := hfits.parts.revise ((h.append_left tag.raw).append_left _) hadmits
  ending := hfits.ending
  raw := Tag.rawLength_eq h hfits.raw

/-! ### Documents -/

theorem Piece.revise_alike {piece : Piece} (hadmits : piece.Admits revision)
    (h : Alike later later') :
  Alike (piece.text ++ later) ((piece.revise revision).text ++ later')
  := by
  cases piece with
  | skipped => apply h.append_left
  | element tag =>
    have halike := Tag.revise_tail_alike hadmits (h.append_left tag.raw)
    simpa [Piece.text, Piece.revise, Tag.text, Tag.opening, Tag.revise] using
      halike.append_left ('<' :: tag.name)

theorem Piece.Fits.revise {dialect : Dialect} {piece : Piece}
    (hfits : piece.Fits dialect later) (h : Alike later later')
    (hadmits : piece.Admits revision) :
  (piece.revise revision).Fits dialect later'
  := by
  cases piece with
  | skipped => apply Skips.alike hfits h
  | element => apply Tag.Fits.revise hfits h hadmits

variable {pieces : List (List Char × Piece)}

theorem revisePieces_alike (hadmits : ∀ entry ∈ pieces, entry.2.Admits revision)
    (h : Alike later later') :
  Alike (piecesText pieces ++ later) (piecesText (revisePieces revision pieces) ++ later')
  := by
  induction pieces with
  | nil => exact h
  | cons first pieces ih =>
    rw [List.forall_mem_cons] at hadmits
    simp only [revisePieces, List.map_cons, piecesText, List.flatMap_cons, List.append_assoc]
    apply Alike.append_left
    apply Piece.revise_alike hadmits.1 (ih hadmits.2)

theorem PiecesFit.revise {dialect : Dialect} (hfits : PiecesFit dialect pieces later)
    (h : Alike later later') (hadmits : ∀ entry ∈ pieces, entry.2.Admits revision) :
  PiecesFit dialect (revisePieces revision pieces) later'
  := by
  induction pieces with
  | nil => trivial
  | cons first pieces ih =>
    rw [List.forall_mem_cons] at hadmits
    obtain ⟨hlead, hpiece, hpieces⟩ := hfits
    exact ⟨hlead, hpiece.revise (revisePieces_alike hadmits.2 h) hadmits.1, ih hpieces hadmits.2⟩

/-- The parts of a document still fit when values of attributes are changed. -/
theorem Fits.revise {dialect : Dialect} {document : Document} (hfits : document.Fits dialect)
    (hadmits : ∀ entry ∈ document.pieces, entry.2.Admits revision) :
  (document.revise revision).Fits dialect
  where
  pieces := hfits.pieces.revise (Alike.refl _) hadmits
  trailing := hfits.trailing

end Document

end UtilityClasses
