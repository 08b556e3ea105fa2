import UtilityClasses.Proofs.Term.Value

/-!
# Spelled literals are read back

A text that has been spelled as a string literal in code, or as the value of an attribute, is read
back in front of any text: the scan ends right behind it, and what it finds is the text.
-/

namespace UtilityClasses

open Scan

variable {context : Context} {s : State} {name : String} {later : List Char} {quote : Quote}
  {delimiter : Char}

/-! ### String literals -/

/-- A text in code is its spelling between the quotes. -/
theorem Literal.toList_inCode (hquote : quote.char? = some delimiter) (value : String) :
  (inCode quote value).toList =
    delimiter :: (value.toList.flatMap (spellChar delimiter) ++ [delimiter])
  := by
  simp [inCode, spell, hquote]

/-- A spelled string literal is passed over as a whole, and its body denotes the text. -/
theorem Scan.exists_runs_stringLiteral (hquote : quote.char? = some delimiter) (value : String)
    (hrest : s.rest = (Literal.inCode quote value).toList ++ later) :
  ∃ body s', Runs (stringLiteral delimiter) s (body, ⟨s.pos, s'.pos⟩) s' ∧
    s.Passes (Literal.inCode quote value).toList s' ∧ s'.rest = later ∧
    (Literal.inCode quote value).toList = delimiter :: (body ++ [delimiter]) ∧
    Literal.decode body = value.toList
  := by
  have hdelimiter := Quote.eq_of_char? hquote
  have htext := Literal.toList_inCode hquote value
  obtain ⟨s', hpasses, hlater⟩ := Term.exists_passes hrest
  refine ⟨_, s', ?_, hpasses, hlater, htext, Literal.decode_spell hdelimiter value.toList⟩
  rw [htext] at hpasses
  exact Term.runs_stringLiteral_of hpasses (stringBody_spell hdelimiter value.toList s'.rest)

/-! ### Values of attributes -/

/-- The value of an attribute is a text: a literal between quotes, or a container with a string. -/
def AttrValue.Denotes (arena : Arena) (text : String) : AttrValue → Prop
  | .literal written => written.quote ≠ .bare ∧ written.value = text
  | .container span id => arena[id]? = some ⟨.str .double text, ⟨span.start + 1, span.stop - 1⟩⟩

/-- A text is written between quotes that are not in it, or as a string in braces. -/
theorem ClassValue.ofText_cases (text : String) :
  (∃ quote delimiter, Quote.char? quote = some delimiter ∧ delimiter ∉ text.toList ∧
    ofText text = quoted quote text) ∨
  ofText text = braces (.str .double text)
  := by
  rw [ofText]
  split
  · next hdouble => exact .inl ⟨.double, '"', rfl, hdouble, rfl⟩
  · split
    · next hsingle => exact .inl ⟨.single, '\'', rfl, hsingle, rfl⟩
    · exact .inr rfl

/-- A text between quotes that are not in it is read back. -/
theorem Scan.exists_runs_quoted (hquote : quote.char? = some delimiter) {value : String}
    (hmem : delimiter ∉ value.toList)
    (hrest : s.rest = (ClassValue.quoted quote value).print ++ later) :
  ∃ attr s', Runs (attributeValue context name) s (some attr) s' ∧
    Term.Covers s (ClassValue.quoted quote value).print s' ∧ attr.span = ⟨s.pos, s'.pos⟩ ∧
    attr.Denotes s'.arena value
  := by
  obtain ⟨s', hpasses, -⟩ := Term.exists_passes hrest
  have hvalue : Runs (attributeValue context name) s _ s' :=
    Document.runs_attributeValue_quoted hquote hmem hpasses
  refine ⟨_, s', hvalue, .of_passes hpasses, rfl, ?_, String.ofList_toList⟩
  rintro rfl
  simp [Quote.char?] at hquote

/-- A spelled string in braces is read back. -/
theorem Scan.exists_runs_braces (hdialect : context.dialect = .jsx)
    (hample : context.Ample s.rest.length) {value : String}
    (hrest : s.rest = (ClassValue.braces (.str .double value)).print ++ later) :
  ∃ attr s', Runs (attributeValue context name) s (some attr) s' ∧
    Term.Covers s (ClassValue.braces (.str .double value)).print s' ∧
    attr.span = ⟨s.pos, s'.pos⟩ ∧ attr.Denotes s'.arena value
  := by
  have hderives : Term.Derives .conditional (.str .double value) :=
    .disjunction (.conjunction (.unary (.postfixed (.primary (.str value (by decide))))))
  obtain ⟨id, s', hvalue, hcovers, hlocates⟩ :=
    hderives.exists_container hdialect hample hrest
  refine ⟨_, s', hvalue, hcovers, rfl, ?_⟩
  have hstop : s'.pos - 1 = s.pos + 1 + Text.byteSize (Term.str .double value).print := by
    have hbraces : Text.byteSize ['\x7d'] = 1 := rfl
    have hbrace : Char.utf8Size '\x7b' = 1 := rfl
    rw [hcovers.pos, Term.braced, Text.byteSize, Text.byteSize_append]
    omega
  rw [AttrValue.Denotes, hstop]
  exact hlocates

/-- A text that has been spelled is read back, whatever follows it. As a string literal it is
passed over up to its last quote, and its body denotes the text; as the value of an attribute in
code it is passed over as a whole, and the value is the text. -/
theorem Literal.spelled_read_back (value : String) {s : State} {later : List Char} :
  (∀ {quote : Quote} {delimiter : Char}, quote.char? = some delimiter →
    s.rest = (inCode quote value).toList ++ later →
    ∃ body s', Runs (stringLiteral delimiter) s (body, ⟨s.pos, s'.pos⟩) s' ∧
      s.Passes (inCode quote value).toList s' ∧ s'.rest = later ∧
      (inCode quote value).toList = delimiter :: (body ++ [delimiter]) ∧
      decode body = value.toList) ∧
  (∀ {context : Context} {name : String}, context.dialect = .jsx →
    context.Ample s.rest.length → s.rest = (asAttribute value).toList ++ later →
    ∃ attr s', Runs (attributeValue context name) s (some attr) s' ∧
      Term.Covers s (asAttribute value).toList s' ∧ s'.rest = later ∧
      attr.span = ⟨s.pos, s'.pos⟩ ∧ attr.Denotes s'.arena value)
  := by
  constructor
  · intro quote delimiter hquote hrest
    exact exists_runs_stringLiteral hquote value hrest
  · intro context name hdialect hample hrest
    have hform : ∃ attr s', Runs (attributeValue context name) s (some attr) s' ∧
        Term.Covers s (asAttribute value).toList s' ∧ attr.span = ⟨s.pos, s'.pos⟩ ∧
        attr.Denotes s'.arena value := by
      rw [ClassValue.toList_asAttribute] at hrest ⊢
      obtain ⟨quote, delimiter, hquote, hmem, hform⟩ | hform := ClassValue.ofText_cases value
      · rw [hform] at hrest ⊢
        exact exists_runs_quoted hquote hmem hrest
      · rw [hform] at hrest ⊢
        exact exists_runs_braces hdialect hample hrest
    obtain ⟨attr, s', hvalue, hcovers, hspan, hdenotes⟩ := hform
    exact ⟨attr, s', hvalue, hcovers, hcovers.rest_eq hrest, hspan, hdenotes⟩

/-- A text with both quotes, a backslash, a line feed and a line separator. -/
def Literal.mixed : String :=
  "a\"b'c\\\n\u2028"

theorem Literal.spelled_read_back_mixed :
  (∃ body s', Runs (stringLiteral '\'') ⟨(inCode .single mixed).toList ++ ['a'], 0, #[], #[]⟩
      (body, ⟨0, s'.pos⟩) s' ∧ s'.rest = ['a'] ∧ decode body = mixed.toList) ∧
  (∃ attr s', Runs (attributeValue (Context.ofLength .jsx 30) "title")
      ⟨(asAttribute mixed).toList ++ ['/', '>'], 0, #[], #[]⟩ (some attr) s' ∧
      s'.rest = ['/', '>'] ∧ attr.Denotes s'.arena mixed)
  := by
  have hquote : Quote.single.char? = some '\'' := rfl
  have hcode : (State.mk ((inCode .single mixed).toList ++ ['a']) 0 #[] #[]).rest =
      (inCode .single mixed).toList ++ ['a'] := rfl
  have hattr : (State.mk ((asAttribute mixed).toList ++ ['/', '>']) 0 #[] #[]).rest =
      (asAttribute mixed).toList ++ ['/', '>'] := rfl
  have hample : (Context.ofLength .jsx 30).Ample ((asAttribute mixed).toList ++ ['/', '>']).length :=
    (Context.ample_ofLength .jsx 30).mono (by decide)
  constructor
  · obtain ⟨body, s', hruns, -, hrest, -, hdecode⟩ :=
      (Literal.spelled_read_back mixed).1 hquote hcode
    exact ⟨body, s', hruns, hrest, hdecode⟩
  · obtain ⟨attr, s', hruns, -, hrest, -, hdenotes⟩ :=
      (Literal.spelled_read_back mixed).2 rfl hample hattr
    exact ⟨attr, s', hruns, hrest, hdenotes⟩

end UtilityClasses
