import Mathlib.Tactic.Common
import UtilityClasses.Scan.Lexeme
import UtilityClasses.Tree.Element
import UtilityClasses.Dialect
import UtilityClasses.Text.Offset

/-!
# Documents as they are written

A document without containers is text with tags in it, and with constructs that are passed
over. `Document` keeps every character of it, so that a document can be written out again, and
`Document.Fits` says of which documents the scan finds the parts: where one part of a document
ends, the next must not be read as more of it. Every condition of this kind is stated of a part
and of the text that follows.
-/

namespace UtilityClasses

open Scan Text

/-- A text between the delimiters that a quote names. -/
def Quote.delimit (quote : Quote) (value : List Char) : List Char :=
  match quote.char? with
  | some delimiter => delimiter :: (value ++ [delimiter])
  | none => value

namespace Document

/-! ### Parts of a tag -/

/-- What stands between the blanks of a tag. -/
inductive Part where
  /-- A character that cannot start an attribute. -/
  | stray (c : Char)
  /-- An attribute without a value. -/
  | bare (name : List Char)
  /-- An attribute with a value; there may be blanks on both sides of the `=`. -/
  | valued (name before after : List Char) (quote : Quote) (value : List Char)

/-- The attribute as far as its value. -/
def valueFront (name before after : List Char) : List Char :=
  name ++ before ++ '=' :: after

/-- A part as it is written. -/
def Part.text : Part → List Char
  | stray c => [c]
  | bare name => name
  | valued name before after quote value => valueFront name before after ++ quote.delimit value

/-- The attribute that a part is, if it is one, when it stands at an offset. -/
def Part.attribute? (pos : Nat) : Part → Option Attribute
  | stray _ => none
  | bare name =>
    let span := ⟨pos, pos + byteSize name⟩
    some ⟨String.ofList name, span, none, span⟩
  | valued name before after quote value =>
    let start := pos + byteSize (valueFront name before after)
    let stop := start + byteSize (quote.delimit value)
    some {
      name := String.ofList name
      nameSpan := ⟨pos, pos + byteSize name⟩
      value := some (.literal ⟨quote, String.ofList value, ⟨start, stop⟩⟩)
      span := ⟨pos, stop⟩ }

/-- The name of an attribute, as far as it can be told from the text after it. -/
structure NameFits (name later : List Char) : Prop where
  ne_nil : name ≠ []
  all : ∀ c ∈ name, isAttributeNameChar c = true
  next : ∀ c ∈ later.head?, isAttributeNameChar c = false

/-- The scan finds the value in front of a text. -/
inductive ValueFits : Quote → List Char → List Char → Prop
  | quoted {quote : Quote} {delimiter : Char} {value later : List Char}
      (hquote : quote.char? = some delimiter) (hvalue : delimiter ∉ value) :
      ValueFits quote value later
  | unquoted {value later : List Char} (hne : value ≠ []) (hdouble : value.head? ≠ some '"')
      (hsingle : value.head? ≠ some '\'') (hvalue : bareValue (value ++ later) = value.length) :
      ValueFits .bare value later

/-- The scan finds the part in front of a text. -/
inductive Part.Fits : Part → List Char → Prop
  | stray {c : Char} {later : List Char} (hspacing : isSpacing c = false)
      (hname : isAttributeNameChar c = false) (hclosing : c ≠ '>')
      (hslash : c = '/' → later.head? ≠ some '>') :
      Fits (.stray c) later
  | bare {name later : List Char} (hname : NameFits name later)
      (hvalue : (later.dropWhile isSpacing).head? ≠ some '=') :
      Fits (.bare name) later
  | valued {name before after value later : List Char} {quote : Quote}
      (hname : NameFits name (before ++ ['='])) (hbefore : ∀ c ∈ before, isSpacing c = true)
      (hafter : ∀ c ∈ after, isSpacing c = true) (hvalue : ValueFits quote value later) :
      Fits (.valued name before after quote value) later

/-- Parts as they are written, each after its blanks. -/
def partsText (parts : List (List Char × Part)) : List Char :=
  parts.flatMap fun (lead, part) => lead ++ part.text

theorem partsText_cons (lead : List Char) (part : Part) (parts : List (List Char × Part)) :
  partsText ((lead, part) :: parts) = lead ++ (part.text ++ partsText parts)
  := by
  rw [partsText, List.flatMap_cons, List.append_assoc]
  rfl

/-- The attributes among the parts of a tag, when the parts stand at an offset. -/
def attributesFrom (pos : Nat) : List (List Char × Part) → List Attribute
  | [] => []
  | (lead, part) :: parts =>
    (part.attribute? (pos + byteSize lead)).toList ++
      attributesFrom (pos + byteSize (lead ++ part.text)) parts

/-- The scan finds the parts in front of a text. -/
def PartsFit : List (List Char × Part) → List Char → Prop
  | [], _ => True
  | (lead, part) :: parts, later =>
    (∀ c ∈ lead, isSpacing c = true) ∧ part.Fits (partsText parts ++ later) ∧
      PartsFit parts later

/-! ### Tags -/

/-- An opening tag with the content that belongs to it if that is not markup. -/
structure Tag where
  name : List Char
  parts : List (List Char × Part)
  /-- The blanks in front of the end of the tag. -/
  ending : List Char
  selfClosing : Bool
  raw : List Char

namespace Tag

/-- The end of a tag. -/
def closing (selfClosing : Bool) : List Char :=
  if selfClosing then ['/', '>'] else ['>']

/-- A tag without its name and its content, as it is written. -/
def tail (tag : Tag) : List Char :=
  partsText tag.parts ++ (tag.ending ++ closing tag.selfClosing)

/-- A tag without its content, as it is written. -/
def opening (tag : Tag) : List Char :=
  '<' :: (tag.name ++ tag.tail)

/-- A tag as it is written. -/
def text (tag : Tag) : List Char :=
  tag.opening ++ tag.raw

/-- The element of a tag that stands at an offset. -/
def element (pos : Nat) (tag : Tag) : Element where
  name := String.ofList tag.name
  span := ⟨pos, pos + byteSize tag.opening⟩
  attributes := attributesFrom (pos + byteSize ('<' :: tag.name)) tag.parts

/-- How much of the text after a tag belongs to it. -/
def rawLength (name : List Char) (selfClosing : Bool) (later : List Char) : Nat :=
  if selfClosing then 0
  else
    match rawTextElements.find? (· = name.map Char.toLower) with
    | some raw => rawText raw later
    | none => 0

/-- The scan finds the tag in front of a text. -/
structure Fits (tag : Tag) (later : List Char) : Prop where
  head : ∃ c ∈ tag.name.head?, c.isAlpha = true
  name : ∀ c ∈ tag.name, isTagNameChar c = true
  next : ∀ c ∈ tag.tail.head?, isTagNameChar c = false
  parts : PartsFit tag.parts (tag.ending ++ closing tag.selfClosing ++ (tag.raw ++ later))
  ending : ∀ c ∈ tag.ending, isSpacing c = true
  raw : rawLength tag.name tag.selfClosing (tag.raw ++ later) = tag.raw.length

end Tag

/-! ### Documents -/

/-- What is passed over up to the end of a text, or up to the end of the document if that text
does not occur. -/
inductive UpTo (needle : List Char) : List Char → List Char → Prop
  | found {body later : List Char}
      (hbody : offsetOf needle (body ++ needle) = some body.length) :
      UpTo needle (body ++ needle) later
  | missing {body : List Char} (hbody : offsetOf needle body = none) : UpTo needle body []

/-- What is passed over in a document: a comment, a closing tag, a declaration or an
instruction, an interpolation, a character that starts nothing. -/
inductive Skips (dialect : Dialect) : List Char → List Char → Prop
  | comment {body later : List Char}
      (hbody : offsetOf ['-', '-', '>'] (body ++ ['-', '-', '>']) = some body.length) :
      Skips dialect ('<' :: '!' :: '-' :: '-' :: (body ++ ['-', '-', '>'])) later
  | markup {c : Char} {body later : List Char} (hc : c = '/' ∨ c = '!' ∨ c = '?')
      (hcomment : ¬ ['!', '-', '-'] <+: c :: (body ++ later)) (hbody : UpTo ['>'] body later) :
      Skips dialect ('<' :: c :: body) later
  | angle {later : List Char}
      (hnext : ∀ c ∈ later.head?,
        c ≠ '/' ∧ c ≠ '!' ∧ c ≠ '?' ∧ c.isAlpha = false) :
      Skips dialect ['<'] later
  | interpolation {body later : List Char} (hdialect : dialect = .vue)
      (hbody : UpTo ['\x7d', '\x7d'] body later) :
      Skips dialect ('\x7b' :: '\x7b' :: body) later
  | brace {later : List Char} (hnext : dialect = .vue → later.head? ≠ some '\x7b') :
      Skips dialect ['\x7b'] later

/-- What stands between the texts of a document. -/
inductive Piece where
  | skipped (text : List Char)
  | element (tag : Tag)

namespace Piece

/-- A piece as it is written. -/
def text : Piece → List Char
  | skipped text => text
  | element tag => tag.text

/-- The element that a piece is, if it is one, when it stands at an offset. -/
def element? (pos : Nat) : Piece → Option Element
  | skipped _ => none
  | element tag => some (tag.element pos)

/-- The scan finds the piece in front of a text. -/
def Fits (dialect : Dialect) : Piece → List Char → Prop
  | skipped text, later => Skips dialect text later
  | element tag, later => tag.Fits later

end Piece

/-- Pieces as they are written, each after the text in front of it. -/
def piecesText (pieces : List (List Char × Piece)) : List Char :=
  pieces.flatMap fun (lead, piece) => lead ++ piece.text

theorem piecesText_cons (lead : List Char) (piece : Piece) (pieces : List (List Char × Piece)) :
  piecesText ((lead, piece) :: pieces) = lead ++ (piece.text ++ piecesText pieces)
  := by
  rw [piecesText, List.flatMap_cons, List.append_assoc]
  rfl

/-- The elements among the pieces of a document, when the pieces stand at an offset. -/
def elementsFrom (pos : Nat) : List (List Char × Piece) → List Element
  | [] => []
  | (lead, piece) :: pieces =>
    (piece.element? (pos + byteSize lead)).toList ++
      elementsFrom (pos + byteSize (lead ++ piece.text)) pieces

/-- The scan finds the pieces in front of a text. -/
def PiecesFit (dialect : Dialect) : List (List Char × Piece) → List Char → Prop
  | [], _ => True
  | (lead, piece) :: pieces, later =>
    (∀ c ∈ lead, isTextChar c = true) ∧ piece.Fits dialect (piecesText pieces ++ later) ∧
      PiecesFit dialect pieces later

end Document

/-- A document: its pieces, each with the text in front of it, and the text after the last. -/
structure Document where
  pieces : List (List Char × Document.Piece)
  trailing : List Char

namespace Document

/-- A document as it is written. -/
def text (document : Document) : List Char :=
  piecesText document.pieces ++ document.trailing

/-- The elements of a document. -/
def elements (document : Document) : List Element :=
  elementsFrom 0 document.pieces

/-- The scan finds the parts of a document. -/
structure Fits (dialect : Dialect) (document : Document) : Prop where
  pieces : PiecesFit dialect document.pieces document.trailing
  trailing : ∀ c ∈ document.trailing, isTextChar c = true

end Document

end UtilityClasses
