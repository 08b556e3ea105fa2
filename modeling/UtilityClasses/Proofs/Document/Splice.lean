import UtilityClasses.Proofs.Document.Revision
import UtilityClasses.Proofs.Selection
import UtilityClasses.Proofs.Splice

/-!
# Splicing documents

The replacements that are selected in a document put the new values of the target attributes
in the places of the old ones, so that the result is the document with its new values.
-/

namespace UtilityClasses

open Text (byteSize)

namespace Settings

/-- The new values of attributes: those of target attributes are class lists, on which the
affix is put. -/
def revision (settings : Settings) : Document.Revision := fun name value =>
  if settings.isTarget (String.ofList name) then
    ((settings.affixed (String.ofList value)).getD (String.ofList value)).toList
  else value

/-- The replacements in an attribute without a container. -/
def replacements (settings : Settings) (attr : Attribute) : List Replacement :=
  (Selection.ofAttribute settings #[] attr).getD []

variable {settings : Settings}

/-- The replacement of a literal, if it has a new value. -/
theorem replacements_literal (htotal : settings.Total) {name value : List Char} {quote : Quote}
    {nameSpan span literal : Span} :
  settings.replacements ⟨String.ofList name, nameSpan,
      some (.literal ⟨quote, String.ofList value, literal⟩), span⟩ =
    if settings.revision name value = value then []
    else [⟨.attributeLiteral, literal,
      Literal.inAttribute quote (String.ofList (settings.revision name value))⟩]
  := by
  by_cases htarget : settings.isTarget (String.ofList name) = true
  · obtain ⟨new, hnew⟩ := htotal.exists_affixed (String.ofList value)
    rw [replacements, Selection.ofAttribute, if_pos htarget, revision, if_pos htarget, hnew,
      Option.getD_some]
    simp only [Selection.ofValue, Settings.revised, hnew, Option.map_some, Option.bind_eq_bind,
      Option.bind_some, String.ofList_toList]
    by_cases hsame : new = String.ofList value
    · rw [if_pos hsame, if_pos (by rw [hsame, String.toList_ofList])]
      rfl
    · rw [if_neg hsame, if_neg]
      · rfl
      · rintro rfl
        exact hsame String.ofList_toList.symm
  · rw [replacements, Selection.ofAttribute, if_neg htarget, revision, if_neg htarget, if_pos rfl]
    rfl

/-- An attribute without a value is not replaced. -/
theorem replacements_none {name : String} {nameSpan span : Span} :
  settings.replacements ⟨name, nameSpan, none, span⟩ = []
  := by
  rw [replacements, Selection.ofAttribute]
  split <;> rfl

end Settings

theorem Literal.toList_inAttribute (quote : Quote) (value : List Char) :
  (Literal.inAttribute quote (String.ofList value)).toList = quote.delimit value
  := by
  rw [Literal.inAttribute, Quote.delimit]
  cases quote <;> simp [Quote.char?]

namespace Document

open Replacement (Rewrites)

variable {settings : Settings} {pos : Nat} {later code : List Char}
  {replacements : List Replacement}

/-- A part in front is spliced. -/
theorem Part.rewrites (htotal : settings.Total) (part : Part)
    (h : Rewrites (pos + byteSize part.text) later replacements code) :
  Rewrites pos (part.text ++ later)
    ((part.attribute? pos).toList.flatMap settings.replacements ++ replacements)
    ((part.revise settings.revision).text ++ code)
  := by
  cases part with
  | stray => apply h.append_left
  | bare =>
    simp only [Part.attribute?, Option.toList_some, List.flatMap_cons, List.flatMap_nil,
      Settings.replacements_none, List.nil_append]
    apply h.append_left
  | valued name before after quote value =>
    simp only [Part.text, Part.attribute?, Part.revise, Option.toList_some, List.flatMap_cons,
      List.flatMap_nil, List.append_nil, List.append_assoc, Text.byteSize_append,
      Settings.replacements_literal htotal] at h ⊢
    rw [← Nat.add_assoc] at h
    split
    · next hsame =>
      rw [hsame]
      apply Rewrites.append_left
      apply h.append_left
    · apply Rewrites.append_left
      rw [List.singleton_append, ← Literal.toList_inAttribute quote (settings.revision name value)]
      apply Rewrites.replace _ h
      rfl

/-- The parts of a tag in front are spliced. -/
theorem partsText_rewrites (htotal : settings.Total) (parts : List (List Char × Part))
    (h : Rewrites (pos + byteSize (partsText parts)) later replacements code) :
  Rewrites pos (partsText parts ++ later)
    ((attributesFrom pos parts).flatMap settings.replacements ++ replacements)
    (partsText (reviseParts settings.revision parts) ++ code)
  := by
  induction parts generalizing pos with
  | nil => exact h
  | cons first parts ih =>
    obtain ⟨lead, part⟩ := first
    simp only [reviseParts, List.map_cons, attributesFrom, partsText_cons, List.flatMap_append,
      List.append_assoc, Text.byteSize_append, ← Nat.add_assoc] at h ⊢
    apply Rewrites.append_left
    apply Part.rewrites htotal
    apply ih h

/-- A piece in front is spliced. -/
theorem Piece.rewrites (htotal : settings.Total) (piece : Piece)
    (h : Rewrites (pos + byteSize piece.text) later replacements code) :
  Rewrites pos (piece.text ++ later)
    (((piece.element? pos).toList.flatMap Element.attributes).flatMap settings.replacements ++
      replacements)
    ((piece.revise settings.revision).text ++ code)
  := by
  cases piece with
  | skipped => apply h.append_left
  | element tag =>
    obtain ⟨ending, htext⟩ : ∃ ending, ∀ parts, ({ tag with parts } : Tag).text =
        ('<' :: tag.name) ++ (partsText parts ++ ending) := by
      use tag.ending ++ Tag.closing tag.selfClosing ++ tag.raw
      simp [Tag.text, Tag.opening, Tag.tail]
    simp only [Piece.text, Piece.revise, Piece.element?, Tag.revise, Option.toList_some,
      List.flatMap_cons, List.flatMap_nil, List.append_nil] at h ⊢
    rw [htext tag.parts] at h ⊢
    rw [htext]
    simp only [Text.byteSize_append, ← Nat.add_assoc, List.append_assoc] at h ⊢
    apply Rewrites.append_left
    apply partsText_rewrites htotal
    apply h.append_left

/-- The pieces of a document in front are spliced. -/
theorem piecesText_rewrites (htotal : settings.Total) (pieces : List (List Char × Piece))
    (h : Rewrites (pos + byteSize (piecesText pieces)) later replacements code) :
  Rewrites pos (piecesText pieces ++ later)
    (((elementsFrom pos pieces).flatMap Element.attributes).flatMap settings.replacements ++
      replacements)
    (piecesText (revisePieces settings.revision pieces) ++ code)
  := by
  induction pieces generalizing pos with
  | nil => exact h
  | cons first pieces ih =>
    obtain ⟨lead, piece⟩ := first
    simp only [revisePieces, List.map_cons, elementsFrom, piecesText_cons, List.flatMap_append,
      List.append_assoc, Text.byteSize_append, ← Nat.add_assoc] at h ⊢
    apply Rewrites.append_left
    apply Piece.rewrites htotal
    apply ih h

/-- A document is spliced into the document with its new values. -/
theorem rewrites (htotal : settings.Total) (document : Document) :
  Rewrites 0 document.text
    ((document.elements.flatMap Element.attributes).flatMap settings.replacements)
    (document.revise settings.revision).text
  := by
  have h := piecesText_rewrites htotal document.pieces
    (Rewrites.nil (0 + byteSize (piecesText document.pieces)) document.trailing)
  rwa [List.append_nil] at h

end Document

end UtilityClasses
