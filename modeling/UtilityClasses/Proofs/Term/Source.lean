import UtilityClasses.Proofs.Document.Piece
import UtilityClasses.Proofs.Term.Reading
import UtilityClasses.Proofs.WellFormed

/-!
# Terms as class lists

An element whose class list is a term in braces is read as one element with one attribute, and the
tree of its value is the term.
-/

namespace UtilityClasses.Term

open Scan
open Text (byteSize)

variable {context : Context} {s t s' : State} {value later : List Char} {attr : AttrValue}

/-! ### An element with a class list -/

/-- The text of an element of which the class list is written in a given way. -/
def classText (value : List Char) : String :=
  "<div className=" ++ String.ofList value ++ " />"

/-- The name of the attribute. -/
def className : List Char := ['c', 'l', 'a', 's', 's', 'N', 'a', 'm', 'e']

theorem toList_classText (value : List Char) :
  (classText value).toList =
    ['<'] ++ (['d', 'i', 'v'] ++ ([' '] ++ (className ++ (['='] ++ (value ++ [' ', '/', '>'])))))
  := by
  simp [classText, className]

/-- The element itself, when its class list is a value of some size. -/
def classElement (value : AttrValue) (size : Nat) : Element where
  name := "div"
  span := ⟨0, 15 + size + 3⟩
  attributes := [⟨"className", ⟨5, 14⟩, some value, ⟨5, 15 + size⟩⟩]

/-- An attribute is read with its value, when no blanks are around its equals sign. -/
theorem runs_attributeTail {name : String} {start : Nat} (hequals : s.Passes ['='] t)
    (hhead : ∀ c ∈ t.rest.head?, isSpacing c = false)
    (hvalue : Runs (attributeValue context name) t (some attr) s') :
  Runs (attributeTail context name start) s
    ⟨name, ⟨start, s.pos⟩, some attr, ⟨start, s'.pos⟩⟩ s'
  := by
  have hmark : s.rest.head? = some '=' := by rw [hequals.ahead]; rfl
  have hspacing : Runs skipSpacing s () s := by
    refine runs_skipSpacing_iff.mpr ⟨[], State.passes_nil.mpr rfl, by simp, ?_⟩
    rw [hmark]
    rintro _ ⟨⟩
    rfl
  have hspacing' : Runs skipSpacing t () t :=
    runs_skipSpacing_iff.mpr ⟨[], State.passes_nil.mpr rfl, by simp, hhead⟩
  simp only [attributeTail, runs_bind, runs_spanFrom, runs_get, runs_rest, and_assoc,
    exists_and_left, exists_eq_left]
  refine ⟨(), s, hspacing, ?_⟩
  rw [if_pos hmark]
  simp only [runs_bind, runs_skip_one hmark, runs_spanFrom, runs_pure, and_assoc]
  exact ⟨(), t, hequals, (), t, hspacing', some attr, s', hvalue, _, s', rfl, rfl, rfl, rfl⟩

/-- The attribute of the element is read with its value. -/
theorem runs_attribute (hname : s.Passes className t) {r : State}
    (hequals : t.Passes ['='] r) (hhead : ∀ c ∈ r.rest.head?, isSpacing c = false)
    (hvalue : Runs (attributeValue context "className") r (some attr) s') :
  Runs (attribute? context) s
    (some ⟨"className", ⟨s.pos, t.pos⟩, some attr, ⟨s.pos, s'.pos⟩⟩) s'
  := by
  have htake : Runs (takeWhile isAttributeNameChar) s className t := by
    refine runs_takeWhile_iff.mpr ⟨hname, ?_, ?_⟩
    · simp [className, isAttributeNameChar, isSpacing, attributeNameEnds]
    · rw [hequals.ahead]
      rintro _ ⟨⟩
      rfl
  simp only [attribute?, runs_bind, runs_position, and_assoc, exists_and_left, exists_eq_left]
  refine ⟨_, t, htake, ?_⟩
  have hlist : String.ofList className = "className" := by decide
  rw [hlist, if_neg (by decide)]
  simp only [runs_bind, runs_pure]
  exact ⟨_, s', runs_attributeTail hequals hhead hvalue, rfl, rfl⟩

/-- A tag in code goes on with an attribute behind a blank. -/
theorem runs_tagTail_attribute (hdialect : context.dialect = .jsx) {name : String}
    {start budget : Nat} {found : Attribute} {attrs : List Attribute}
    {result : Bool × List Attribute} {r : State} (hblank : s.Passes [' '] t)
    (hhead : t.rest.head? = some 'c')
    (hattr : Runs (attribute? context) t (some found) r)
    (hlater : Runs (tagTail context name start budget (attrs ++ [found])) r result s') :
  Runs (tagTail context name start (budget + 1) attrs) s result s'
  := by
  obtain ⟨later, hrest⟩ := List.head?_eq_some_iff.mp hhead
  have hskip : Runs skipTrivia s () t := by
    refine (runs_skipTrivia_of_settled hblank.ahead (by simp; rfl) ?_).mpr hblank
    rw [hrest]
    rintro _ ⟨⟩
    decide
  have hmarkup : context.dialect.isMarkup = false := by rw [hdialect]; rfl
  simp only [tagTail, betweenAttributes, hmarkup, Bool.false_eq_true, if_false, runs_bind,
    runs_rest]
  refine ⟨(), t, hskip, _, t, ⟨rfl, rfl⟩, ?_⟩
  rw [hrest]
  simp
  exact ⟨some found, r, hattr, hlater⟩

/-- A tag in code ends with a slash behind a blank. -/
theorem runs_tagTail_end (hdialect : context.dialect = .jsx) {name : String}
    {start budget : Nat} {attrs : List Attribute} (hclose : s.Passes [' ', '/', '>'] s') :
  Runs (tagTail context name start (budget + 1) attrs) s (true, attrs) s'
  := by
  obtain ⟨t, hblank, hclose⟩ := State.passes_cons.mp hclose
  have hrest : t.rest = '/' :: '>' :: s'.rest := hclose.ahead
  have hskip : Runs skipTrivia s () t := by
    rw [runs_skipTrivia, hblank.ahead, hrest]
    refine ⟨1, ?_, hblank.eq_after⟩
    simp [trivia, triviaAfter, isSpacing, comment, Trivia.succ]
  have hmarkup : context.dialect.isMarkup = false := by rw [hdialect]; rfl
  simp only [tagTail, betweenAttributes, hmarkup, Bool.false_eq_true, if_false, runs_bind,
    runs_rest]
  refine ⟨(), t, hskip, _, t, ⟨rfl, rfl⟩, ?_⟩
  rw [hrest]
  simp only [runs_bind, runs_skip_two hrest, runs_pure]
  exact ⟨(), s', hclose, trivial, rfl⟩

/-- The name of the element is not the first of a list of type parameters. -/
theorem opensTypeParameters_className (later : List Char) :
  opensTypeParameters (' ' :: (className ++ '=' :: later)) = false
  := by
  have hnext : (' ' :: (className ++ '=' :: later)).dropWhile isSpacing =
      className ++ '=' :: later := rfl
  have hword : (className ++ '=' :: later).takeWhile isNameChar = className := rfl
  rw [opensTypeParameters, hnext, hword]
  simp [className]

/-- An opening tag is read if its name does not make it a list of type parameters. -/
theorem runs_openTag {c : Char} {name : List Char} {selfClosing : Bool} (hangle : s.Passes ['<'] t)
    (hname : t.rest = c :: later) (hstart : isNameStart c = true) {r : State}
    (htake : Runs (takeWhile isTagNameChar) t name r) (hopens : opensTypeParameters r.rest = false)
    (htag : Runs (tag context (String.ofList name) s.pos) r selfClosing s') :
  Runs (openTag? context) s (some ⟨String.ofList name, ⟨s.pos, s'.pos⟩, selfClosing⟩) s'
  := by
  have hrest : s.rest = '<' :: c :: later := by
    rw [hangle.ahead, hname]
    rfl
  have hhead : s.rest.head? = some '<' := by rw [hrest]; rfl
  have hclose : c ≠ '>' := by
    rintro rfl
    simp [isNameStart] at hstart
  simp only [openTag?, runs_bind, runs_position, runs_rest, and_assoc, exists_and_left,
    exists_eq_left]
  rw [hrest]
  split
  · next heq => exact absurd (List.cons.inj (List.cons.inj heq).2).1 hclose
  · next heq =>
    obtain ⟨rfl, -⟩ := List.cons.inj (List.cons.inj heq).2
    rw [if_pos hstart]
    simp only [runs_bind, runs_get, runs_skip_one hhead, runs_rest, and_assoc, exists_and_left,
      exists_eq_left]
    refine ⟨(), t, hangle, name, r, htake, ?_⟩
    rw [if_neg (by rw [hopens]; exact Bool.false_ne_true)]
    simp only [runs_bind, runs_spanFrom, runs_pure]
    exact ⟨selfClosing, s', htag, _, s', ⟨rfl, rfl⟩, rfl, rfl⟩
  · next hnot => exact absurd rfl (hnot c later)

/-- The element is read as a whole, and recorded. -/
theorem runs_element (hdialect : context.dialect = .jsx) (hbudget : 2 ≤ context.budget)
    {t₁ t₂ t₃ t₄ r : State} {value : List Char} (hstart : s.pos = 0) (hangle : s.Passes ['<'] t₁)
    (hdiv : t₁.Passes ['d', 'i', 'v'] t₂) (hblank : t₂.Passes [' '] t₃)
    (hname : t₃.Passes className t₄) (hequals : t₄.Passes ['='] t)
    (hhead : ∀ c ∈ t.rest.head?, isSpacing c = false)
    (hvalue : Runs (attributeValue context "className") t (some attr) r)
    (hcovers : Covers t value r) (hclose : r.Passes [' ', '/', '>'] s') :
  Runs (element context) s true (Document.adding s' [classElement attr (byteSize value)])
  := by
  have hattr := runs_attribute hname hequals hhead hvalue
  have hrest : t₂.rest = ' ' :: (className ++ '=' :: t.rest) := by
    rw [hblank.ahead, hname.ahead, hequals.ahead]
    rfl
  have htake : Runs (takeWhile isTagNameChar) t₁ ['d', 'i', 'v'] t₂ := by
    refine runs_takeWhile_iff.mpr ⟨hdiv, by simp [isTagNameChar, isNameChar, isNameStart], ?_⟩
    rw [hrest]
    rintro _ ⟨⟩
    rfl
  obtain ⟨budget, hbudget⟩ : ∃ budget, context.budget = budget + 2 :=
    Nat.exists_eq_add_of_le' hbudget
  have htail : Runs (tagTail context "div" s.pos (budget + 2) []) t₂ _ s' :=
    runs_tagTail_attribute hdialect hblank (by rw [hname.ahead]; rfl) hattr
      (runs_tagTail_end hdialect hclose)
  have hpos₃ : t₃.pos = 5 := by rw [hblank.pos, hdiv.pos, hangle.pos, hstart]; rfl
  have hpos₄ : t₄.pos = 14 := by rw [hname.pos, hpos₃]; rfl
  have hpos : r.pos = 15 + byteSize value := by rw [hcovers.pos, hequals.pos, hpos₄]; rfl
  have hpos' : s'.pos = 15 + byteSize value + 3 := by rw [hclose.pos, hpos]; rfl
  have htag : Runs (tag context "div" s.pos) t₂ true
      (Document.adding s' [classElement attr (byteSize value)]) := by
    refine Document.runs_tag.mpr ⟨_, s', hbudget ▸ htail, ?_⟩
    rw [hpos₃, hpos₄, hpos, hpos', hstart]
    rfl
  have hopen := runs_openTag hangle hdiv.ahead rfl htake
    (by rw [hrest]; exact opensTypeParameters_className _) htag
  simp only [element, runs_bind]
  exact ⟨_, _, hopen, runs_pure.mpr ⟨rfl, rfl⟩⟩

/-! ### Sources -/

/-- A source that is one element is passed over. -/
theorem runs_source (hdialect : context.dialect = .jsx) (hbudget : 2 ≤ context.budget)
    (hangle : s.rest.head? = some '<') (helement : Runs (element context) s true s')
    (hnil : s'.rest = []) :
  Runs (source context) s () s'
  := by
  obtain ⟨later, hrest⟩ := List.head?_eq_some_iff.mp hangle
  obtain ⟨budget, hbudget⟩ : ∃ budget, context.budget = budget + 2 :=
    Nat.exists_eq_add_of_le' hbudget
  have hsettled : Settled s.rest := by
    rw [hrest]
    rintro _ ⟨⟩
    decide
  have hsettled' : Settled s'.rest := by
    rw [hnil]
    rintro _ ⟨⟩
  have hlexeme : Runs (lexeme context ⟨0, .operator⟩ '<') s ⟨0, .operand⟩ s' := by
    have hangle : Runs (angle context ⟨0, .operator⟩) s ⟨0, .operand⟩ s' := by
      simp only [angle, hdialect, Dialect.allowsElements, Bool.and_true, decide_true, if_true,
        runs_bind]
      exact ⟨true, s', helement, runs_pure.mpr ⟨rfl, rfl⟩⟩
    simpa [lexeme] using hangle
  have hlast : Runs (codeFrom context [] (budget + 1) ⟨0, .operand⟩) s' false s' := by
    simp only [codeFrom, runs_bind, runs_skipTrivia_settled hsettled', runs_rest, exists_eq_left,
      exists_const, and_assoc, exists_and_left]
    rw [hnil]
    exact runs_pure.mpr ⟨rfl, rfl⟩
  have hcode : Runs (code context []) s false s' := by
    rw [code, hbudget]
    simp only [codeFrom, runs_bind, runs_skipTrivia_settled hsettled, runs_rest, exists_eq_left,
      exists_const, and_assoc, exists_and_left]
    rw [hrest]
    exact runs_bind.mpr ⟨_, s', hlexeme, hlast⟩
  have hscript : source context = script context := by
    rw [source, hdialect]
    rfl
  have hline : Runs interpreterLine s () s := by
    simp only [interpreterLine, runs_bind, runs_rest, and_assoc, exists_and_left, exists_eq_left]
    rw [hrest, if_neg (by simp [List.isPrefixOf])]
    exact runs_pure.mpr ⟨rfl, rfl⟩
  simp only [hscript, script, runs_bind, runs_discard]
  exact ⟨(), s, hline, false, hcode⟩

/-- The element is the markup of its text, with the expressions of its value. -/
theorem exists_parse_classText {c : Char} (rest : List Char) (hspacing : isSpacing c = false)
    {P : AttrValue → Arena → Prop}
    (h : ∀ {context : Context} {s : State}, context.dialect = .jsx → context.Ample s.rest.length →
      s.rest = c :: (rest ++ [' ', '/', '>']) → s.pos = 15 → s.arena = #[] →
      ∃ attr s', Runs (attributeValue context "className") s (some attr) s' ∧
        Covers s (c :: rest) s' ∧ P attr s'.arena) :
  ∃ attr arena, Markup.parse .jsx (classText (c :: rest)) =
      .ok ⟨[classElement attr (byteSize (c :: rest))], arena⟩ ∧ P attr arena
  := by
  obtain ⟨s, hs⟩ : ∃ s, s = State.initial (classText (c :: rest)).toList := ⟨_, rfl⟩
  have hrest : s.rest = ['<'] ++ (['d', 'i', 'v'] ++ ([' '] ++ (className ++ (['='] ++
      (c :: (rest ++ [' ', '/', '>'])))))) := by
    rw [hs]
    exact toList_classText (c :: rest)
  obtain ⟨t₁, hangle, hrest₁⟩ := exists_passes hrest
  obtain ⟨t₂, hdiv, hrest₂⟩ := exists_passes hrest₁
  obtain ⟨t₃, hblank, hrest₃⟩ := exists_passes hrest₂
  obtain ⟨t₄, hname, hrest₄⟩ := exists_passes hrest₃
  obtain ⟨t, hequals, hrest₅⟩ := exists_passes hrest₄
  have hopening := hangle.trans (hdiv.trans (hblank.trans (hname.trans hequals)))
  have hlength := (Covers.of_passes hopening).length_eq
  have hample := Context.ample_ofLength .jsx s.rest.length
  have hpos : t.pos = 15 := by
    rw [hopening.pos, hs]
    rfl
  have harena : t.arena = #[] := by
    rw [hopening.arena, hs]
    rfl
  obtain ⟨attr, r, hvalue, hcovers, hP⟩ := h rfl (hample.mono (by omega)) hrest₅ hpos harena
  have hrest₆ : r.rest = [' ', '/', '>'] ++ [] := hcovers.rest_eq hrest₅
  obtain ⟨s', hclose, hnil⟩ := exists_passes hrest₆
  refine ⟨attr, r.arena, ?_, hP⟩
  have hbudget : 2 ≤ (Context.ofLength .jsx s.rest.length).budget := by
    have hlength : 2 ≤ s.rest.length := by simp [hrest]
    exact Nat.le_trans hlength (Nat.le_of_lt hample.lt_budget)
  have helement := runs_element rfl hbudget (by rw [hs]; rfl) hangle hdiv hblank hname hequals
    (by rw [hrest₅]; rintro _ ⟨⟩; exact hspacing) hvalue hcovers hclose
  have hsource := runs_source rfl hbudget (by rw [hrest]; rfl) helement hnil
  rw [Markup.parse_eq_ok_iff_runs]
  refine ⟨_, by rw [hs] at hsource; exact hsource, ?_⟩
  have helements : s'.elements = #[] := by
    rw [hclose.elements, hcovers.elements, hopening.elements, hs]
    rfl
  simp [Document.adding, helements, hclose.arena]

/-! ### Terms in braces -/

variable {term : Term}

/-- A term in braces. -/
def braced (term : Term) : List Char :=
  '\x7b' :: (term.print ++ ['\x7d'])

theorem classText_braced (term : Term) :
  "<div className=\x7b" ++ String.ofList term.print ++ "\x7d />" = classText term.braced
  := by
  refine String.toList_inj.mp ?_
  simp [classText, braced]

/-- A term in braces is the value of an attribute. -/
theorem Derives.exists_container (h : term.Derives .conditional) {name : String}
    (hdialect : context.dialect = .jsx) (hample : context.Ample s.rest.length)
    (hrest : s.rest = term.braced ++ later) :
  ∃ id s', Runs (attributeValue context name) s (some (.container ⟨s.pos, s'.pos⟩ id)) s' ∧
    Covers s term.braced s' ∧ s'.arena.Locates (s.pos + 1) id term
  := by
  have hrest : s.rest = '\x7b' :: (term.print ++ ([] ++ '\x7d' :: later)) := by
    simpa [braced] using hrest
  obtain ⟨hopen, hahead⟩ := passes_one hrest
  have hlt : (s.after 1).rest.length < s.rest.length := by simp [hrest]
  obtain ⟨node, t, hnode, hbetween⟩ := ReadsRegion.nested (ReadsConditional.region h.reads h)
    ['\x7d'] hample hlt hahead (by simp) (by simp [closers]) (by simp)
  obtain ⟨hclose, -⟩ := passes_one (hbetween.rest_eq hahead)
  have hhead : t.rest.head? = some '\x7d' := by rw [hbetween.rest_eq hahead]; rfl
  refine ⟨node.id, t.after 1, ?_, ?_, ?_⟩
  · have hcontainer : Runs (container context) s
        (.container ⟨s.pos, (t.after 1).pos⟩ node.id) (t.after 1) := by
      simp only [container, runs_bind, runs_position, runs_skip, runs_rest, and_assoc,
        exists_and_left, exists_eq_left, exists_const]
      refine ⟨node, t, hnode, ?_⟩
      rw [if_pos hhead]
      simp
    simp only [attributeValue, runs_bind, runs_position, runs_rest, hdialect,
      Dialect.hasContainers, and_assoc, exists_and_left, exists_eq_left, hrest]
    simpa using hcontainer
  · simpa [braced] using
      (Covers.of_passes hopen).trans (hbetween.toCovers.trans (.of_passes hclose))
  · have hpos : (s.after 1).pos = s.pos + 1 := hopen.pos
    rw [← hpos]
    exact hbetween.locates

/-- The element of a term in braces is read, and the term is located in it. -/
theorem Derives.exists_parse (h : term.Derives .conditional) :
  ∃ id arena, Markup.parse .jsx (classText term.braced) =
      .ok ⟨[classElement (.container ⟨15, 15 + byteSize term.braced⟩ id)
        (byteSize term.braced)], arena⟩ ∧
    arena.Locates 16 id term
  := by
  obtain ⟨attr, arena, hparse, id, rfl, hlocates⟩ :=
    exists_parse_classText (c := '\x7b') (term.print ++ ['\x7d']) rfl
      (P := fun attr arena => ∃ id,
        attr = .container ⟨15, 15 + byteSize term.braced⟩ id ∧ arena.Locates 16 id term) (by
      intro context s hdialect hample hrest hpos _
      have hrest : s.rest = term.braced ++ [' ', '/', '>'] := hrest
      obtain ⟨id, s', hvalue, hcovers, hlocates⟩ := h.exists_container hdialect hample hrest
      rw [hcovers.pos, hpos] at hvalue
      rw [hpos] at hlocates
      exact ⟨_, s', hvalue, hcovers, id, rfl, hlocates⟩)
  exact ⟨id, arena, hparse, hlocates⟩

/-- Every term of the grammar is read back from the element of which it is the class list: there
is one element with one attribute, and the tree of its value is the term. -/
theorem parse_print (h : term.Derives .conditional) :
  ∃ id arena, Markup.parse .jsx
      ("<div className=\x7b" ++ String.ofList term.print ++ "\x7d />") =
      .ok ⟨[classElement (.container ⟨15, 15 + byteSize term.braced⟩ id)
        (byteSize term.braced)], arena⟩ ∧
    arena.term? id = some term
  := by
  obtain ⟨id, arena, hparse, hlocates⟩ := h.exists_parse
  obtain ⟨harena, -⟩ := Markup.formed_of_parse hparse
  exact ⟨id, arena, by rw [classText_braced, hparse], hlocates.term?_eq harena⟩

/-- A term with every kind of part: a call with a conjunction, a template with a hole and a spread,
and an array in parentheses, behind a test with a member. -/
def sample : Term :=
  .conditional (.logical .or (.member (.ident "user") "on") (.ident "typeofs"))
    (.call (.ident "cn") [.logical .and (.ident "a") (.str .double "p-4"),
      .template "m-" [(.ident "n", "")], .spread (.ident "b")])
    (.paren (.array [.str .single "it's", .str .double "c\nd"]))

theorem derives_sample :
  sample.Derives .conditional
  := by
  have hname {name : String} (h : name ∈ ["user", "on", "typeofs", "cn", "a", "n", "b"]) :
      IsName name := by
    simp only [List.mem_cons, List.not_mem_nil, or_false] at h
    rcases h with rfl | rfl | rfl | rfl | rfl | rfl | rfl <;>
      exact ⟨rfl, by simp [Scan.isNameChar, Scan.isNameStart]⟩
  have hident {name : String} (h : name ∈ ["user", "on", "typeofs", "cn", "a", "n", "b"]) :
      Derives .primary (.ident name) := by
    refine .ident (hname h) ?_ ?_ <;>
    · simp only [List.mem_cons, List.not_mem_nil, or_false] at h
      rcases h with rfl | rfl | rfl | rfl | rfl | rfl | rfl <;> decide
  have hpostfixed {term : Term} (h : Derives .postfixed term) : Derives .conditional term :=
    .disjunction (.conjunction (.unary (.postfixed h)))
  have hhole : Derives .primary (.template "m-" [(.ident "n", "")]) :=
    .template (by simp [IsPlain])
      (by simpa using hpostfixed (.primary (hident (by decide)))) (by simp [IsPlain])
  have hand : Derives .conjunction (.logical .and (.ident "a") (.str .double "p-4")) :=
    .and (.unary (.postfixed (.primary (hident (by decide)))))
      (.postfixed (.primary (.str _ (by decide))))
  have hspread : Derives .unary (.spread (.ident "b")) :=
    .spread (.postfixed (.primary (hident (by decide))))
  have hcall : Derives .postfixed (.call (.ident "cn") [.logical .and (.ident "a")
      (.str .double "p-4"), .template "m-" [(.ident "n", "")], .spread (.ident "b")]) := by
    refine .call (.primary (hident (by decide))) ?_
    simp only [List.forall_mem_cons]
    exact ⟨.disjunction (.conjunction hand), hpostfixed (.primary hhole),
      .disjunction (.conjunction (.unary hspread)), by simp⟩
  have harray : Derives .primary (.array [.str .single "it's", .str .double "c\nd"]) := by
    refine .array ?_
    simp only [List.forall_mem_cons]
    exact ⟨hpostfixed (.primary (.str _ (by decide))),
      hpostfixed (.primary (.str _ (by decide))), by simp⟩
  have htest : Derives .disjunction
      (.logical .or (.member (.ident "user") "on") (.ident "typeofs")) := by
    refine .or (by decide) (.conjunction (.unary (.postfixed ?_)))
      (.unary (.postfixed (.primary (hident (by decide)))))
    exact .member (.primary (hident (by decide))) (hname (by decide))
  exact .conditional htest (hpostfixed hcall)
    (hpostfixed (.primary (.paren (hpostfixed (.primary harray)))))

/-- The theorem applies to the sample. -/
theorem parse_print_sample :
  sample.Derives .conditional ∧ ∃ id arena, Markup.parse .jsx
      ("<div className=\x7b" ++ String.ofList sample.print ++ "\x7d />") =
      .ok ⟨[classElement (.container ⟨15, 15 + byteSize sample.braced⟩ id)
        (byteSize sample.braced)], arena⟩ ∧
    arena.term? id = some sample
  := ⟨derives_sample, parse_print derives_sample⟩

end UtilityClasses.Term
