import UtilityClasses.Proofs.Document.Reading

/-!
# Pages

A page is a list of tags, each with the text that follows it, and there is one way to write it:
a blank stands in front of every attribute and of the end of a tag that closes itself. What is
written can be read back, whatever the values of the attributes look like.
-/

namespace UtilityClasses

open Scan Text

namespace Page

/-- An attribute of a page: a name, and the value if there is one. The value does not contain
the quote between which it stands. -/
structure Attr where
  name : List Char
  value : Option (Quote × List Char)
  name_ne_nil : name ≠ []
  name_chars : ∀ c ∈ name, isAttributeNameChar c = true
  value_delimited : ∀ entry ∈ value, ∃ delimiter ∈ entry.1.char?, delimiter ∉ entry.2

/-- An attribute as it is written. -/
def Attr.text (attr : Attr) : List Char :=
  match attr.value with
  | none => attr.name
  | some (quote, value) => attr.name ++ '=' :: quote.delimit value

/-- A tag of a page and the text up to the next tag. The content of an element that is left
open is markup. -/
structure Tag where
  name : List Char
  attrs : List Attr
  selfClosing : Bool
  after : List Char
  name_head : ∃ c ∈ name.head?, c.isAlpha = true
  name_chars : ∀ c ∈ name, isTagNameChar c = true
  not_raw : selfClosing = false → name.map Char.toLower ∉ rawTextElements
  after_chars : '<' ∉ after

/-- The end of a tag as it is written. -/
def ending (selfClosing : Bool) : List Char :=
  if selfClosing then [' ', '/', '>'] else ['>']

/-- A tag as it is written, with the text that follows it. -/
def Tag.text (tag : Tag) : List Char :=
  '<' :: (tag.name ++ tag.attrs.flatMap (fun attr => ' ' :: attr.text) ++
    ending tag.selfClosing ++ tag.after)

end Page

/-- The tags of a page as they are written. -/
def Page.text (tags : List Page.Tag) : List Char :=
  tags.flatMap Page.Tag.text

namespace Page

/-! ### What is read -/

/-- The attribute that is found has the name, the quote style and the value of the one that was
written. -/
structure Attr.ReadAs (attr : Attr) (found : Attribute) : Prop where
  name : found.name = String.ofList attr.name
  bare (h : attr.value = none) : found.value = none
  quoted {quote : Quote} {value : List Char} (h : attr.value = some (quote, value)) :
    ∃ span, found.value = some (.literal ⟨quote, String.ofList value, span⟩)

/-- The element that is found has the name and the attributes of the tag that was written. -/
structure Tag.ReadAs (tag : Tag) (found : Element) : Prop where
  name : found.name = String.ofList tag.name
  attributes : List.Forall₂ Attr.ReadAs tag.attrs found.attributes

/-! ### Attributes -/

/-- An attribute as a part of a tag. -/
def Attr.part (attr : Attr) : Document.Part :=
  match attr.value with
  | none => .bare attr.name
  | some (quote, value) => .valued attr.name [] [] quote value

theorem Attr.text_part (attr : Attr) :
  attr.part.text = attr.text
  := by
  rw [part, text]
  cases attr.value with
  | none => rfl
  | some entry =>
    simp [Document.Part.text, Document.valueFront]

/-- Attributes as parts of a tag. -/
def parts (attrs : List Attr) : List (List Char × Document.Part) :=
  attrs.map fun attr => ([' '], attr.part)

theorem partsText_parts (attrs : List Attr) :
  Document.partsText (parts attrs) = attrs.flatMap fun attr => ' ' :: attr.text
  := by
  rw [Document.partsText, parts, List.flatMap_map]
  simp [Attr.text_part]

/-- The first character of an attribute. -/
theorem Attr.exists_text_eq_cons (attr : Attr) :
  ∃ c later, attr.text = c :: later ∧ isAttributeNameChar c = true
  := by
  obtain ⟨c, name, hname⟩ := List.exists_cons_of_ne_nil attr.name_ne_nil
  have hc := attr.name_chars c (by simp [hname])
  rw [text, hname]
  cases attr.value with
  | none => exact ⟨c, name, rfl, hc⟩
  | some entry => exact ⟨c, _, rfl, hc⟩

/-- What follows a name ends it and gives it no value. -/
structure Separates (later : List Char) : Prop where
  next : ∀ c ∈ later.head?, isAttributeNameChar c = false
  value : (later.dropWhile isSpacing).head? ≠ some '='

/-- More attributes, or the end of the tag, follow a name. -/
theorem separates_attrs (attrs : List Attr) (selfClosing : Bool) (later : List Char) :
  Separates (Document.partsText (parts attrs) ++ (ending selfClosing ++ later))
  := by
  rw [partsText_parts]
  cases attrs with
  | nil =>
    cases selfClosing with
    | false => constructor <;> simp [ending, isAttributeNameChar, attributeNameEnds, isSpacing]
    | true => constructor <;> simp [ending, isAttributeNameChar, isSpacing]
  | cons attr attrs =>
    obtain ⟨c, rest, htext, hc⟩ := attr.exists_text_eq_cons
    rw [isAttributeNameChar, Bool.and_eq_true, Bool.not_eq_true', Bool.not_eq_true'] at hc
    obtain ⟨hspacing, hends⟩ := hc
    have hequals : c ≠ '=' := by
      rintro rfl
      simp [attributeNameEnds] at hends
    rw [List.flatMap_cons, htext]
    constructor
    · simp [isAttributeNameChar, isSpacing]
    · rw [List.cons_append, List.cons_append, List.cons_append,
        List.dropWhile_cons_of_pos (by simp [isSpacing]), List.cons_append,
        List.dropWhile_cons_of_neg (by simp [hspacing]), List.head?_cons]
      simpa using hequals

/-- The scan finds an attribute in front of what separates it. -/
theorem Attr.fits (attr : Attr) {later : List Char} (h : Separates later) :
  attr.part.Fits later
  := by
  rw [part]
  cases hvalue : attr.value with
  | none =>
    exact .bare ⟨attr.name_ne_nil, attr.name_chars, h.next⟩ h.value
  | some entry =>
    obtain ⟨quote, value⟩ := entry
    obtain ⟨delimiter, hquote, hfree⟩ := attr.value_delimited _ hvalue
    refine .valued ⟨attr.name_ne_nil, attr.name_chars, ?_⟩ (by simp) (by simp)
      (.quoted hquote hfree)
    simp [isAttributeNameChar, attributeNameEnds]

/-- The scan finds the attributes in front of the end of their tag. -/
theorem partsFit (attrs : List Attr) (selfClosing : Bool) (later : List Char) :
  Document.PartsFit (parts attrs) (ending selfClosing ++ later)
  := by
  induction attrs with
  | nil => trivial
  | cons attr attrs ih =>
    refine ⟨by simp [isSpacing], ?_, ih⟩
    apply attr.fits (separates_attrs attrs selfClosing later)

/-- The attribute that is found is the one that was written. -/
theorem Attr.readAs (attr : Attr) (pos : Nat) :
  ∃ found, attr.part.attribute? pos = some found ∧ attr.ReadAs found
  := by
  rw [part]
  cases hvalue : attr.value with
  | none =>
    refine ⟨_, rfl, rfl, fun _ => rfl, ?_⟩
    rw [hvalue]
    rintro _ _ ⟨⟩
  | some entry =>
    refine ⟨_, rfl, rfl, ?_, ?_⟩
    · rw [hvalue]
      rintro ⟨⟩
    · rw [hvalue]
      rintro _ _ ⟨⟩
      exact ⟨_, rfl⟩

theorem readAs_attributesFrom (attrs : List Attr) (pos : Nat) :
  List.Forall₂ Attr.ReadAs attrs (Document.attributesFrom pos (parts attrs))
  := by
  induction attrs generalizing pos with
  | nil => apply List.Forall₂.nil
  | cons attr attrs ih =>
    obtain ⟨found, hfound, hread⟩ := attr.readAs (pos + byteSize [' '])
    rw [parts, List.map_cons, Document.attributesFrom, hfound]
    exact .cons hread (ih _)

/-! ### Tags -/

/-- A tag in a document, without the text that follows it. -/
def Tag.opening (tag : Tag) : Document.Tag where
  name := tag.name
  parts := parts tag.attrs
  ending := if tag.selfClosing then [' '] else []
  selfClosing := tag.selfClosing
  raw := []

/-- The end of a tag with the blanks in front of it. -/
theorem ending_eq (selfClosing : Bool) :
  ending selfClosing =
    (if selfClosing then [' '] else []) ++ Document.Tag.closing selfClosing
  := by
  cases selfClosing <;> rfl

theorem Tag.text_eq (tag : Tag) :
  tag.text = tag.opening.text ++ tag.after
  := by
  simp [text, Document.Tag.text, Document.Tag.opening, Document.Tag.tail, opening, ending_eq,
    partsText_parts]

/-- A blank or the end of the tag follows its name. -/
theorem isTagNameChar_head_tail (tag : Tag) :
  ∀ c ∈ tag.opening.tail.head?, isTagNameChar c = false
  := by
  rw [Document.Tag.tail, Tag.opening, partsText_parts, ← ending_eq]
  cases tag.attrs with
  | nil => cases tag.selfClosing <;> simp [ending, isTagNameChar, isNameChar, isNameStart]
  | cons => simp [isTagNameChar, isNameChar, isNameStart]

/-- The scan finds a tag in front of every text. -/
theorem Tag.fits (tag : Tag) (later : List Char) :
  tag.opening.Fits later
  where
  head := tag.name_head
  name := tag.name_chars
  next := isTagNameChar_head_tail tag
  parts := by
    have hparts := partsFit tag.attrs tag.selfClosing later
    rwa [ending_eq] at hparts
  ending := by
    rw [opening]
    split <;> simp [isSpacing]
  raw := by
    rw [Document.Tag.rawLength]
    split
    · rfl
    · next hopen =>
      rw [List.find?_eq_none.mpr]
      · rfl
      · intro raw hraw heq
        apply tag.not_raw (by simpa [opening] using hopen)
        rw [decide_eq_true_eq] at heq
        exact heq ▸ hraw

theorem Tag.readAs (tag : Tag) (pos : Nat) :
  tag.ReadAs (tag.opening.element pos)
  where
  name := rfl
  attributes := readAs_attributesFrom tag.attrs _

/-! ### Pages -/

/-- The document is a text, the scan finds its parts, and the tags are read from it. -/
structure Writes (document : Document) (text : List Char) (tags : List Tag) : Prop where
  fits : document.Fits .html
  text_eq : document.text = text
  readAs (pos : Nat) : List.Forall₂ Tag.ReadAs tags (Document.elementsFrom pos document.pieces)

variable {tags : List Tag} {text : List Char} {document : Document}

/-- A document with one more piece in front. -/
def within (lead : List Char) (piece : Document.Piece) (document : Document) : Document :=
  ⟨(lead, piece) :: document.pieces, document.trailing⟩

theorem Writes.skip (h : Writes document text tags) {lead : List Char}
    (hlead : ∀ c ∈ lead, isTextChar c = true) :
  Writes (within lead (.skipped ['\x7b']) document) (lead ++ '\x7b' :: text) tags
  where
  fits := ⟨⟨hlead, .brace (by simp), h.fits.pieces⟩, h.fits.trailing⟩
  text_eq := by
    rw [← h.text_eq]
    simp [within, Document.text, Document.piecesText_cons, Document.Piece.text]
  readAs pos := h.readAs _

theorem Writes.tag (h : Writes document text tags) {lead : List Char}
    (hlead : ∀ c ∈ lead, isTextChar c = true) (tag : Tag) :
  Writes (within lead (.element tag.opening) document) (lead ++ tag.opening.text ++ text)
    (tag :: tags)
  where
  fits := ⟨⟨hlead, tag.fits _, h.fits.pieces⟩, h.fits.trailing⟩
  text_eq := by
    rw [← h.text_eq]
    simp [within, Document.text, Document.piecesText_cons, Document.Piece.text]
  readAs pos := .cons (tag.readAs _) (h.readAs _)

/-- A text without tags in front of a page adds nothing to what is read: its braces are passed
over, and the rest is text. -/
theorem exists_writes_append
    (h : ∀ lead, (∀ c ∈ lead, isTextChar c = true) →
      ∃ document, Writes document (lead ++ text) tags)
    {after : List Char} (hafter : '<' ∉ after) {lead : List Char}
    (hlead : ∀ c ∈ lead, isTextChar c = true) :
  ∃ document, Writes document (lead ++ after ++ text) tags
  := by
  induction after generalizing lead with
  | nil => simpa using h lead hlead
  | cons c after ih =>
    rw [List.mem_cons, not_or] at hafter
    by_cases hbrace : c = '\x7b'
    · obtain ⟨document, hwrites⟩ := ih hafter.2 (List.forall_mem_nil _)
      subst hbrace
      use within lead (.skipped ['\x7b']) document
      simpa using hwrites.skip hlead
    · have hlead' : ∀ d ∈ lead ++ [c], isTextChar d = true := by
        rw [List.forall_mem_append, List.forall_mem_singleton]
        exact ⟨hlead, by simp [isTextChar, hbrace, Ne.symm hafter.1]⟩
      simpa using ih hafter.2 hlead'

/-- Every page is a document from which its tags are read. -/
theorem exists_writes (tags : List Tag) {lead : List Char}
    (hlead : ∀ c ∈ lead, isTextChar c = true) :
  ∃ document, Writes document (lead ++ Page.text tags) tags
  := by
  induction tags generalizing lead with
  | nil =>
    use ⟨[], lead⟩
    exact ⟨⟨trivial, hlead⟩, by simp [Document.text, Document.piecesText, Page.text],
      fun _ => .nil⟩
  | cons tag tags ih =>
    obtain ⟨document, hwrites⟩ :=
      exists_writes_append (fun _ => ih) tag.after_chars (List.forall_mem_nil _)
    use within lead (.element tag.opening) document
    simpa [Page.text, tag.text_eq] using hwrites.tag hlead tag

/-- A page is read back: its tags, the names of their attributes and the values with their
quotes, in the order in which they were written. -/
theorem parse_text (tags : List Tag) :
  ∃ elements, Markup.parse .html (String.ofList (Page.text tags)) = .ok ⟨elements, #[]⟩ ∧
    List.Forall₂ Tag.ReadAs tags elements
  := by
  obtain ⟨document, hwrites⟩ := exists_writes tags (List.forall_mem_nil _)
  refine ⟨document.elements, ?_, hwrites.readAs 0⟩
  apply (Document.parse_eq_ok_iff (.inl rfl)).mpr
  refine ⟨document, hwrites.fits, ?_, rfl⟩
  rw [hwrites.text_eq, String.toList_ofList, List.nil_append]

example :
  Page.text [
    { name := ['p']
      attrs := [
        { name := ['@', 'a']
          value := none
          name_ne_nil := by decide
          name_chars := by rw [← List.all_eq_true]; decide
          value_delimited := by simp },
        { name := ['b']
          value := some (.single, ['<', '"', '\x7b'])
          name_ne_nil := by decide
          name_chars := by rw [← List.all_eq_true]; decide
          value_delimited := by simp [Quote.char?] }]
      selfClosing := true
      after := ['\x7d']
      name_head := ⟨'p', rfl, rfl⟩
      name_chars := by rw [← List.all_eq_true]; decide
      not_raw := by decide
      after_chars := by decide }] = "<p @a b='<\"\x7b' />\x7d".toList
  := by decide

end Page

end UtilityClasses
