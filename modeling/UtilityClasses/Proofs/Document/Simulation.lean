import Mathlib.Data.List.Forall2
import UtilityClasses.Proofs.ClassList
import UtilityClasses.Proofs.Document.Splice

/-!
# Elements and their prefixed class lists

Between the elements of a document and those of the document with its new values there is a
simulation: names and quotes are the same, class lists are prefixed, and other values stay.
What simulates has no class list left that changes.
-/

namespace UtilityClasses

open Text (byteSize)

/-! ### Simulation -/

/-- The value stands between quotes. -/
def AttrValue.IsQuoted : AttrValue → Prop
  | literal text => text.quote ≠ .bare
  | container _ _ => False

/-- What becomes of the value of an attribute: a class list if the attribute is a target, and
the same value if it is not, between the same quotes. -/
inductive AttrValue.Simulates (settings : Settings) (name : String) :
    AttrValue → AttrValue → Prop
  | target {text new : Literal} (htarget : settings.isTarget name = true)
      (hquote : new.quote = text.quote) (hvalue : settings.affixed text.value = some new.value) :
      Simulates settings name (.literal text) (.literal new)
  | other {text new : Literal} (htarget : settings.isTarget name = false)
      (hquote : new.quote = text.quote) (hvalue : new.value = text.value) :
      Simulates settings name (.literal text) (.literal new)

/-- What becomes of an attribute: only its value is new. -/
structure Attribute.Simulates (settings : Settings) (attr new : Attribute) : Prop where
  name : new.name = attr.name
  value : Option.Rel (AttrValue.Simulates settings attr.name) attr.value new.value

/-- What becomes of an element: its attributes become others, one for one. -/
structure Element.Simulates (settings : Settings) (element new : Element) : Prop where
  name : new.name = element.name
  attributes : List.Forall₂ (Attribute.Simulates settings) element.attributes new.attributes

variable {settings : Settings}

/-- The new value of an attribute simulates its value. -/
theorem Settings.revision_simulates (htotal : settings.Total) (name value : List Char)
    (quote : Quote) (span span' : Span) :
  AttrValue.Simulates settings (String.ofList name) (.literal ⟨quote, String.ofList value, span⟩)
    (.literal ⟨quote, String.ofList (settings.revision name value), span'⟩)
  := by
  rw [revision]
  cases htarget : settings.isTarget (String.ofList name) with
  | true =>
    obtain ⟨new, hnew⟩ := htotal.exists_affixed (String.ofList value)
    rw [if_pos rfl, hnew, Option.getD_some, String.ofList_toList]
    apply AttrValue.Simulates.target htarget
    · rfl
    · apply hnew
  | false =>
    rw [if_neg Bool.false_ne_true]
    apply AttrValue.Simulates.other htarget <;> rfl

/-! ### Documents with their new values -/

namespace Document

theorem Part.simulates (htotal : settings.Total) (part : Part) (pos pos' : Nat) :
  List.Forall₂ (Attribute.Simulates settings) (part.attribute? pos).toList
    ((part.revise settings.revision).attribute? pos').toList
  := by
  cases part with
  | stray => apply List.Forall₂.nil
  | bare => apply List.Forall₂.cons ⟨rfl, .none⟩ .nil
  | valued name before after quote value =>
    apply List.Forall₂.cons _ .nil
    use rfl
    apply Option.Rel.some
    apply Settings.revision_simulates htotal

theorem attributesFrom_simulates (htotal : settings.Total) (parts : List (List Char × Part))
    (pos pos' : Nat) :
  List.Forall₂ (Attribute.Simulates settings) (attributesFrom pos parts)
    (attributesFrom pos' (reviseParts settings.revision parts))
  := by
  induction parts generalizing pos pos' with
  | nil => apply List.Forall₂.nil
  | cons first parts ih =>
    apply List.rel_append
    · apply Part.simulates htotal
    · apply ih

theorem Piece.simulates (htotal : settings.Total) (piece : Piece) (pos pos' : Nat) :
  List.Forall₂ (Element.Simulates settings) (piece.element? pos).toList
    ((piece.revise settings.revision).element? pos').toList
  := by
  cases piece with
  | skipped => apply List.Forall₂.nil
  | element tag =>
    apply List.Forall₂.cons _ .nil
    use rfl
    apply attributesFrom_simulates htotal

theorem elementsFrom_simulates (htotal : settings.Total) (pieces : List (List Char × Piece))
    (pos pos' : Nat) :
  List.Forall₂ (Element.Simulates settings) (elementsFrom pos pieces)
    (elementsFrom pos' (revisePieces settings.revision pieces))
  := by
  induction pieces generalizing pos pos' with
  | nil => apply List.Forall₂.nil
  | cons first pieces ih =>
    apply List.rel_append
    · apply Piece.simulates htotal
    · apply ih

/-- The elements of a document with its new values simulate those of the document. -/
theorem simulates (htotal : settings.Total) (document : Document) :
  List.Forall₂ (Element.Simulates settings) document.elements
    (document.revise settings.revision).elements
  := by
  apply elementsFrom_simulates htotal

/-! ### Values that can be prefixed -/

/-- An attribute among parts has its place. -/
theorem exists_attribute_mem {parts : List (List Char × Part)} {entry : List Char × Part}
    (hmem : entry ∈ parts) (pos : Nat) :
  ∃ start, ∀ attr ∈ entry.2.attribute? start, attr ∈ attributesFrom pos parts
  := by
  induction parts generalizing pos with
  | nil => simp at hmem
  | cons first parts ih =>
    obtain rfl | hmem := List.mem_cons.mp hmem
    · use pos + byteSize entry.1
      intro attr hattr
      apply List.mem_append_left
      rwa [Option.mem_toList]
    · obtain ⟨start, hstart⟩ := ih hmem (pos + byteSize (first.1 ++ first.2.text))
      use start
      intro attr hattr
      apply List.mem_append_right _ (hstart attr hattr)

/-- An element among pieces has its place. -/
theorem exists_element_mem {pieces : List (List Char × Piece)} {entry : List Char × Piece}
    (hmem : entry ∈ pieces) (pos : Nat) :
  ∃ start, ∀ element ∈ entry.2.element? start, element ∈ elementsFrom pos pieces
  := by
  induction pieces generalizing pos with
  | nil => simp at hmem
  | cons first pieces ih =>
    obtain rfl | hmem := List.mem_cons.mp hmem
    · use pos + byteSize entry.1
      intro element helement
      apply List.mem_append_left
      rwa [Option.mem_toList]
    · obtain ⟨start, hstart⟩ := ih hmem (pos + byteSize (first.1 ++ first.2.text))
      use start
      intro element helement
      apply List.mem_append_right _ (hstart element helement)

theorem PartsFit.of_mem {parts : List (List Char × Part)} {entry : List Char × Part}
    {later : List Char} (h : PartsFit parts later) (hmem : entry ∈ parts) :
  ∃ later', entry.2.Fits later'
  := by
  induction parts with
  | nil => simp at hmem
  | cons first parts ih =>
    obtain ⟨-, hpart, hparts⟩ := h
    obtain rfl | hmem := List.mem_cons.mp hmem
    · exact ⟨_, hpart⟩
    · apply ih hparts hmem

theorem PiecesFit.of_mem {dialect : Dialect} {pieces : List (List Char × Piece)}
    {entry : List Char × Piece} {later : List Char} (h : PiecesFit dialect pieces later)
    (hmem : entry ∈ pieces) :
  ∃ later', entry.2.Fits dialect later'
  := by
  induction pieces with
  | nil => simp at hmem
  | cons first pieces ih =>
    obtain ⟨-, hpiece, hpieces⟩ := h
    obtain rfl | hmem := List.mem_cons.mp hmem
    · exact ⟨_, hpiece⟩
    · apply ih hpieces hmem

end Document

/-- The settings prefix every class list, put no quote into it, and prefix it once. -/
structure Settings.Steady (settings : Settings) : Prop where
  total : settings.Total
  quote : ∀ {classes new : String} {c : Char}, settings.affixed classes = some new →
    c ∈ new.toList → c = '"' ∨ c = '\'' → c ∈ classes.toList
  again : ∀ {classes new : String}, settings.affixed classes = some new →
    settings.affixed new = some new

/-- An affix that is accepted is steady, unless it starts with the mark of importance. -/
theorem Settings.steady_of_checkAffix {affix : String} (attributes : List String)
    (isUtility : String → Bool) (haffix : Command.checkAffix affix = .ok ())
    (hmark : affix.toList.head? ≠ some '!') :
  Settings.Steady ⟨affix, attributes, Classifier.ofPredicate isUtility⟩
  where
  total := fun _ => rfl
  quote := by
    intro classes new c hnew hc hquote
    obtain rfl | hc | hc := ClassList.mem_affixed (Command.of_checkAffix haffix).1 hnew hc
    · simp at hquote
    · have hall := (Command.of_checkAffix haffix).2 c hc
      obtain rfl | rfl := hquote
      · exact absurd rfl hall.2.1
      · exact absurd rfl hall.2.2
    · apply hc
  again := ClassList.affixed_affixed (Command.isAffix_of_checkAffix haffix) hmark

namespace Document

theorem Part.Fits.admits (hsteady : settings.Steady) {part : Part} {later : List Char}
    (hfits : part.Fits later) {pos : Nat}
    (hquoted : ∀ attr ∈ part.attribute? pos, settings.isTarget attr.name = true →
      ∀ value ∈ attr.value, value.IsQuoted) :
  part.Admits settings.revision
  := by
  cases hfits with
  | stray | bare => trivial
  | @valued name before after value _ quote _ _ _ hvalue =>
    rw [Part.Admits, Settings.revision]
    split
    · next htarget =>
      cases hvalue with
      | @quoted _ delimiter _ _ hdelimiter hnot =>
        right
        refine ⟨delimiter, hdelimiter, ?_⟩
        obtain ⟨new, hnew⟩ := hsteady.total.exists_affixed (String.ofList value)
        rw [hnew, Option.getD_some]
        intro hmem
        apply hnot
        have hmem := hsteady.quote hnew hmem (Quote.eq_of_char? hdelimiter)
        rwa [String.toList_ofList] at hmem
      | unquoted => exact absurd rfl (hquoted _ rfl htarget _ rfl)
    · exact .inl rfl

/-- Class lists can be prefixed in a document in which all of them stand between quotes. -/
theorem Fits.admits (hsteady : settings.Steady) {dialect : Dialect} {document : Document}
    (hfits : document.Fits dialect)
    (hquoted : ∀ element ∈ document.elements, ∀ attr ∈ element.attributes,
      settings.isTarget attr.name = true → ∀ value ∈ attr.value, value.IsQuoted) :
  ∀ entry ∈ document.pieces, entry.2.Admits settings.revision
  := by
  rintro ⟨lead, piece⟩ hentry
  cases piece with
  | skipped => trivial
  | element tag =>
    obtain ⟨later, htag⟩ := hfits.pieces.of_mem hentry
    obtain ⟨start, helement⟩ := exists_element_mem hentry 0
    intro part hpart
    obtain ⟨later', hfitted⟩ := htag.parts.of_mem hpart
    obtain ⟨place, hattr⟩ :=
      exists_attribute_mem hpart (start + byteSize ('<' :: tag.name))
    apply hfitted.admits hsteady
    intro attr hmem
    apply hquoted (tag.element start) (helement _ rfl) attr (hattr attr hmem)

end Document

/-! ### What simulates does not change -/

/-- A value that simulates another does not change. -/
theorem Attribute.Simulates.ofAttribute (hsteady : settings.Steady) {attr new : Attribute}
    (h : attr.Simulates settings new) (arena : Arena) :
  Selection.ofAttribute settings arena new = some []
  := by
  rw [Selection.ofAttribute, h.name]
  split
  · next htarget =>
    have hvalue := h.value
    generalize attr.value = value, new.value = value' at hvalue
    cases hvalue with
    | none => rfl
    | some hvalue =>
      cases hvalue with
      | target _ _ hnew =>
        simp [Selection.ofValue, Settings.revised, hsteady.again hnew]
      | other hother => simp [hother] at htarget
  · rfl

/-- Nothing is replaced in markup of which the elements simulate others. -/
theorem Selection.eq_nil_of_simulates (hsteady : settings.Steady) {elements : List Element}
    {new : Markup} (h : List.Forall₂ (Element.Simulates settings) elements new.elements)
    {found : List Replacement} (hfound : ofMarkup settings new = some found) :
  found = []
  := by
  have hattributes : List.Forall₂ (Attribute.Simulates settings)
      (elements.flatMap Element.attributes) (new.elements.flatMap Element.attributes) :=
    List.rel_flatMap h fun _ _ hsimulates => hsimulates.attributes
  rw [eq_of_ofMarkup hfound, List.flatMap_eq_nil_iff]
  intro attr hattr
  obtain ⟨i, hi, rfl⟩ := List.getElem_of_mem hattr
  have hsimulates := hattributes.get (by rwa [hattributes.length_eq]) hi
  have hnone := hsimulates.ofAttribute hsteady new.arena
  rw [List.get_eq_getElem] at hnone
  rw [hnone, Option.getD_some]

end UtilityClasses
