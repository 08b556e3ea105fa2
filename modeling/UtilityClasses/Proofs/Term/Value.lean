import UtilityClasses.Proofs.Document.Splice
import UtilityClasses.Proofs.Term.Source
import UtilityClasses.Proofs.Term.Splice

/-!
# Class lists as values

The class list of an element is a term in braces or a text between quotes. A term that is a
template without holes, in any number of parentheses, becomes a text between quotes together with
its braces when it is revised; every other term stays in its braces.
-/

namespace UtilityClasses

open Text (byteSize)

/-- The term inside any number of parentheses. -/
def Term.core : Term → Term
  | paren inner => inner.core
  | term => term

/-- The class list that a literal is. -/
def Term.classText? : Term → Option Selection.ClassText
  | str quote value => some (.string quote value)
  | template text [] => some (.template text)
  | _ => none

/-- The text of a template without holes. -/
def Term.staticText? (term : Term) : Option String :=
  match term.classText? with
  | some (.template text) => some text
  | _ => none

/-- A class list as the value of an attribute. -/
inductive ClassValue where
  | braces (term : Term)
  | quoted (quote : Quote) (text : String)

namespace ClassValue

/-- A class list as it is written. -/
def print : ClassValue → List Char
  | braces term => term.braced
  | quoted quote text => quote.delimit text.toList

/-- A text as a class list: between the quotes that are not in it, or in braces if both are. -/
def ofText (text : String) : ClassValue :=
  if '"' ∉ text.toList then quoted .double text
  else if '\'' ∉ text.toList then quoted .single text
  else braces (.str .double text)

/-- The class list that the value of an attribute is. -/
def ofValue? (arena : Arena) : AttrValue → Option ClassValue
  | .container _ id => (arena.term? id).map braces
  | .literal text => some (quoted text.quote text.value)

variable (new : String → String)

/-- A class list with new texts. -/
def revise : ClassValue → ClassValue
  | braces term =>
    match term.core.staticText? with
    | some text => if new text = text then braces term else ofText (new text)
    | none => braces (term.revise new .whole)
  | quoted quote text => quoted quote (new text)

/-- The replacements in the class list of an element, from left to right. -/
def changes : ClassValue → List Replacement
  | braces term =>
    match term.core.staticText? with
    | some text =>
      if new text = text then []
      else [⟨.staticTemplate, ⟨15, 15 + byteSize term.braced⟩, Literal.asAttribute (new text)⟩]
    | none => term.changes new 16 .whole
  | quoted quote text =>
    if new text = text then []
    else [⟨.attributeLiteral, ⟨15, 15 + byteSize (quoted quote text).print⟩,
      Literal.inAttribute quote (new text)⟩]

variable {new}

/-! ### Reading -/

/-- The class list can be read back. -/
def Fits : ClassValue → Prop
  | braces term => term.Derives .conditional
  | quoted quote text => ∃ delimiter, quote.char? = some delimiter ∧ delimiter ∉ text.toList

/-- The value of an attribute is the class list, as it stands in an element. -/
def Stands (arena : Arena) : ClassValue → AttrValue → Prop
  | braces term, value => ∃ id, value = .container ⟨15, 15 + byteSize term.braced⟩ id ∧
    arena.Locates 16 id term
  | quoted quote text, value =>
    value = .literal ⟨quote, text, ⟨15, 15 + byteSize (quoted quote text).print⟩⟩

/-- The class list of an element is read back. -/
theorem Fits.exists_parse {value : ClassValue} (h : value.Fits) :
  ∃ attr arena, Markup.parse .jsx (Term.classText value.print) =
      .ok ⟨[Term.classElement attr (byteSize value.print)], arena⟩ ∧
    value.Stands arena attr
  := by
  cases value with
  | braces term =>
    obtain ⟨id, arena, hparse, hlocates⟩ := Term.Derives.exists_parse h
    exact ⟨_, arena, hparse, id, rfl, hlocates⟩
  | quoted quote text =>
    obtain ⟨delimiter, hquote, hmem⟩ := h
    have hprint : (quoted quote text).print = delimiter :: (text.toList ++ [delimiter]) :=
      Quote.delimit_of_char? hquote _
    have hspacing : Scan.isSpacing delimiter = false := by
      obtain rfl | rfl := Quote.eq_of_char? hquote <;> rfl
    rw [hprint]
    refine Term.exists_parse_classText _ hspacing ?_
    intro context s _ _ hrest hpos _
    have hpasses : s.Passes (delimiter :: (text.toList ++ [delimiter])) _ :=
      Scan.State.passes_after hrest
    refine ⟨_, _, ?_, .of_passes hpasses, rfl⟩
    have hvalue : Scan.Runs (Scan.attributeValue context "className") s _ _ :=
      Document.runs_attributeValue_quoted hquote hmem (by rwa [Quote.delimit_of_char? hquote])
    rw [hpasses.pos, hpos, String.ofList_toList] at hvalue
    rwa [hprint]

/-- The class list that stands in an element is the one that its attribute has. -/
theorem Stands.ofValue?_eq {arena : Arena} {value : ClassValue} {attr : AttrValue}
    (harena : arena.WellFormed) (h : value.Stands arena attr) :
  ofValue? arena attr = some value
  := by
  cases value with
  | braces term =>
    obtain ⟨id, rfl, hlocates⟩ := h
    rw [ofValue?, hlocates.term?_eq harena, Option.map_some]
  | quoted quote text =>
    obtain rfl := h
    rfl

/-- A text can be read back as a class list. -/
theorem fits_ofText (text : String) :
  (ofText text).Fits
  := by
  rw [ofText]
  split
  · next hdouble => exact ⟨'"', rfl, hdouble⟩
  · split
    · next hsingle => exact ⟨'\'', rfl, hsingle⟩
    · exact .disjunction (.conjunction (.unary (.postfixed (.primary (.str text (by decide))))))

/-- A term with new texts in its class lists can be read back. -/
theorem fits_revise {term : Term} (h : term.Derives .conditional) :
  ((braces term).revise new).Fits
  := by
  rw [revise]
  split
  · split
    · exact h
    · exact fits_ofText _
  · exact h.revise .whole

/-! ### Splicing -/

open Term (Becomes)

theorem toList_inAttribute (quote : Quote) (text : String) :
  (Literal.inAttribute quote text).toList = (quoted quote text).print
  := by
  have h := Literal.toList_inAttribute quote text.toList
  rwa [String.ofList_toList] at h

theorem toList_asAttribute (text : String) :
  (Literal.asAttribute text).toList = (ofText text).print
  := by
  rw [Literal.asAttribute, ofText]
  simp only [List.contains_eq_mem, Bool.not_eq_true', decide_eq_false_iff_not]
  split
  · exact toList_inAttribute .double text
  · split
    · exact toList_inAttribute .single text
    · simp [print, Term.braced, Term.print]

/-- A class list becomes the class list with its new texts. -/
theorem Fits.becomes_revise (new : String → String) {value : ClassValue} (h : value.Fits) :
  Becomes 15 value.print (value.changes new) (value.revise new).print
  := by
  cases value with
  | braces term =>
    rw [changes, revise]
    split
    · next text _ =>
      split
      · exact .copy _ _
      · rw [← toList_asAttribute]
        exact .replace (by simp [print, Term.braced]) rfl
    · exact (Term.becomes_revise 16 .whole term).between ['\x7b'] ['\x7d']
  | quoted quote text =>
    rw [changes, revise]
    split
    · next hsame =>
      rw [hsame]
      exact .copy _ _
    · obtain ⟨delimiter, hquote, -⟩ := h
      rw [← toList_inAttribute quote (new text)]
      exact .replace (by simp [print, Quote.delimit_of_char? hquote]) rfl

/-- An element becomes the element with the new texts of its class list. -/
theorem Fits.becomes_classText (new : String → String) {value : ClassValue} (h : value.Fits) :
  Becomes 0 (Term.classText value.print).toList (value.changes new)
    (Term.classText (value.revise new).print).toList
  := by
  rw [Term.toList_classText, Term.toList_classText]
  have hfront :
      byteSize (['<'] ++ (['d', 'i', 'v'] ++ ([' '] ++ (Term.className ++ ['='])))) = 15 := rfl
  have hbecomes := h.becomes_revise new
  rw [← Nat.zero_add 15, ← hfront] at hbecomes
  simpa using hbecomes.between _ [' ', '/', '>']

/-! ### Revising twice -/

/-- A term is as much of a template as it was before its texts were new. -/
theorem staticText?_core_revise :
  ∀ term : Term, (term.revise new .whole).core.staticText? = term.core.staticText?
  | .paren inner => staticText?_core_revise inner
  | .str quote value => by
    rw [Term.revise, Term.reviseLiteral]
    split <;> rfl
  | .template text [] => rfl
  | .template text (first :: later) => by
    rw [Term.revise, Term.reviseHoles_eq_map]
    rfl
  | .ident _ | .member _ _ | .call _ _ | .logical _ _ _ | .conditional _ _ _ | .array _ |
    .spread _ => rfl

/-- There is nothing to replace in a text that stays as it is. -/
theorem changes_ofText {text : String} (h : new text = text) :
  (ofText text).changes new = []
  := by
  rw [ofText]
  split
  · rw [changes, if_pos h]
  · split
    · rw [changes, if_pos h]
    · have hstatic : (Term.str .double text).core.staticText? = none := rfl
      rw [changes, hstatic]
      exact Term.literalChanges_eq_nil h

/-- A class list that has been revised has nothing left to replace. -/
theorem changes_revise (hnew : ∀ text, new (new text) = new text) (value : ClassValue) :
  (value.revise new).changes new = []
  := by
  cases value with
  | braces term =>
    rw [revise]
    split
    · next text htext =>
      split
      · next hsame =>
        rw [changes, htext]
        exact if_pos hsame
      · exact changes_ofText (hnew text)
    · next hstatic =>
      rw [changes, staticText?_core_revise, hstatic]
      exact Term.changes_revise hnew 16 .whole term
  | quoted quote text => rw [revise, changes, if_pos (hnew text)]

/-! ### Selection -/

open Selection (ClassText placed called)

variable {settings : Settings} {arena : Arena}

/-- What is inside the parentheses of a term is inside those of its expression. -/
theorem exists_wraps :
  ∀ {pos : Nat} {id : ExprId} (term : Term), arena.Locates pos id term →
    ∃ expr, arena.Wraps id expr ∧ Selection.classText? expr.shape = term.core.classText?
  | _, _, .paren inner, ⟨_, hself, hinner⟩ => by
    obtain ⟨expr, hwraps, htext⟩ := exists_wraps inner hinner
    exact ⟨expr, .paren hself hwraps, htext⟩
  | _, _, .str _ _, hself => ⟨_, .self hself rfl, rfl⟩
  | _, _, .template text [], ⟨ids, hself, hholes⟩ => by
    obtain rfl : ids = [] := hholes
    refine ⟨_, .self hself rfl, ?_⟩
    simp [Selection.classText?, ExprShape.staticText?, String.join, Term.core, Term.classText?]
  | _, _, .template _ (_ :: _), ⟨_, hself, hholes⟩ => by
    obtain ⟨_, _, rfl, -⟩ := hholes
    exact ⟨_, .self hself rfl, rfl⟩
  | _, _, .ident _, hself => ⟨_, .self hself rfl, rfl⟩
  | _, _, .member _ _, ⟨_, hself, _⟩ => ⟨_, .self hself rfl, rfl⟩
  | _, _, .call _ _, ⟨_, _, hself, _⟩ => ⟨_, .self hself rfl, rfl⟩
  | _, _, .logical _ _ _, ⟨_, _, hself, _⟩ => ⟨_, .self hself rfl, rfl⟩
  | _, _, .conditional _ _ _, ⟨_, _, _, hself, _⟩ => ⟨_, .self hself rfl, rfl⟩
  | _, _, .array _, ⟨_, hself, _⟩ => ⟨_, .self hself rfl, rfl⟩
  | _, _, .spread _, ⟨_, hself, _⟩ => ⟨_, .self hself rfl, rfl⟩

/-- The replacements in a container are those of the term in it. -/
theorem ofContainer_perm (htotal : settings.Total) (harena : arena.WellFormed) {id : ExprId}
    {term : Term} (h : arena.Locates 16 id term) :
  ∃ found, Selection.ofContainer settings arena ⟨15, 15 + byteSize term.braced⟩ id = some found ∧
    found.Perm ((braces term).changes settings.renewed)
  := by
  have hperm : (placed settings arena .whole id ++ called settings arena id).Perm _ :=
    Term.placed_append_called_perm harena .whole term h
  obtain ⟨expr', hwraps', htext⟩ := exists_wraps term h
  obtain ⟨shape', hself⟩ := h.exists_holds
  have hid := (Array.getElem?_eq_some_iff.mp hself).1
  obtain ⟨expr, core, hexpr, hpeel, hcore, hwraps, hmem⟩ := Selection.exists_core harena hid
  obtain rfl := hwraps.unique hwraps'
  have hcalls := Selection.ofCalls_eq htotal harena hid
  rw [Selection.placed_of_wraps harena .whole hwraps, Selection.ofCore_eq (by simp),
    Selection.ofPlaced] at hperm
  simp only [Selection.ofContainer, hexpr, hpeel, Option.bind_eq_bind, Option.bind_some, htext,
    hcalls, changes, Term.staticText?] at hperm ⊢
  cases hclass : term.core.classText? with
  | none => simpa [hclass] using hperm
  | some text =>
    rw [hclass] at htext
    rw [Selection.called_of_wraps harena hwraps (Term.shape_of_classText? htext)] at hperm ⊢
    have hrevised := htotal.revised_eq text.text
    by_cases hsame : settings.renewed text.text = text.text
    · rw [if_pos hsame] at hrevised
      refine ⟨[], by simp [hrevised], ?_⟩
      cases text with
      | string quote text => simpa [hclass, hsame, Term.Place.target?] using hperm
      | template text => simp [show settings.renewed text = text from hsame]
    · rw [if_neg hsame] at hrevised
      cases text with
      | string quote text =>
        refine ⟨_, by simp only [hrevised, Option.bind_some]; rfl, ?_⟩
        simpa [hclass, hsame, Term.Place.target?] using hperm
      | template text =>
        refine ⟨_, by simp only [hrevised, Option.bind_some]; rfl, ?_⟩
        simp [show settings.renewed text ≠ text from hsame, ClassText.text]

theorem Stands.ofAttribute_perm (htotal : settings.Total) (harena : arena.WellFormed)
    {value : ClassValue} {attr : AttrValue} (h : value.Stands arena attr)
    (htarget : settings.isTarget "className" = true) (span nameSpan : Span) :
  ∃ found, Selection.ofAttribute settings arena ⟨"className", nameSpan, some attr, span⟩ =
      some found ∧ found.Perm (value.changes settings.renewed)
  := by
  rw [Selection.ofAttribute, if_pos htarget]
  cases value with
  | braces term =>
    obtain ⟨id, rfl, hlocates⟩ := h
    exact ofContainer_perm htotal harena hlocates
  | quoted quote text =>
    obtain rfl := h
    simp only [Selection.ofValue, htotal.revised_eq, changes, Option.bind_eq_bind,
      Option.bind_some]
    by_cases hsame : settings.renewed text = text
    · simp [hsame]
    · simp [hsame]

end ClassValue

end UtilityClasses
