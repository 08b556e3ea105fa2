import UtilityClasses.Proofs.Scan.Ample
import UtilityClasses.Proofs.Term.Layout
import UtilityClasses.Proofs.Term.Lexeme

/-!
# What the scans of an expression read

The scan of an expression reads a printed term, whatever comes behind it that ends it, and stores
it where it stands. This file says so for the scan of each level of the grammar: where the rule is
left-recursive, the scan has read the left part and is about to go on. Literals, names, regions and
parentheses are read here.
-/

namespace UtilityClasses.Term

open Scan
open Text (byteSize)

variable {context : Context} {s t s' : State} {node node' : Node} {blanks later : List Char}
  {term : Term}

/-- The first character of what is left can be passed. -/
theorem passes_one {c : Char} (h : s.rest = c :: later) :
  s.Passes [c] (s.after 1) ∧ (s.after 1).rest = later
  := by
  constructor
  · apply State.passes_after h
  · rw [s.after_rest, h, List.drop_one, List.tail_cons]

/-- What is left of a text can be passed part by part. -/
theorem exists_passes {text : List Char} (h : s.rest = text ++ later) :
  ∃ t, s.Passes text t ∧ t.rest = later
  := ⟨_, State.passes_after h, State.after_length_rest h⟩

/-! ### Terms between two states -/

/-- The text lies between the two states. Expressions may have been stored on the way, but no
element has been found. -/
structure Covers (s : State) (text : List Char) (s' : State) : Prop where
  ahead : s.rest = text ++ s'.rest
  pos : s'.pos = s.pos + byteSize text
  elements : s'.elements = s.elements
  grows : s.arena.Grows s'.arena

/-- The state after an expression has been stored. -/
def storing (t : State) (shape : ExprShape) (span : Span) : State :=
  { t with arena := t.arena.push ⟨shape, span⟩ }

theorem storing_grows (t : State) (shape : ExprShape) (span : Span) :
  t.arena.Grows (storing t shape span).arena
  := Arena.grows_push _ _

theorem holds_storing (t : State) (shape : ExprShape) (pos : Nat) (text : List Char) :
  (storing t shape ⟨pos, pos + byteSize text⟩).arena.Holds pos t.arena.size shape text
  := Array.getElem?_push_size

/-- The term and the blanks behind it lie between the two states, and the node is the term. -/
structure Between (term : Term) (s : State) (blanks : List Char) (node : Node) (s' : State) : Prop
    extends Covers s (term.print ++ blanks) s' where
  locates : s'.arena.Locates s.pos node.id term
  span : node.span = ⟨s.pos, s.pos + byteSize term.print⟩

namespace Covers

variable {text before after blanks : List Char} {shape : ExprShape}

theorem of_passes (h : s.Passes text s') :
  Covers s text s'
  where
  ahead := h.ahead
  pos := h.pos
  elements := h.elements
  grows := by
    rw [h.arena]
    exact .refl _

theorem trans (h : Covers s before t) (h' : Covers t after s') :
  Covers s (before ++ after) s'
  where
  ahead := by rw [h.ahead, h'.ahead, List.append_assoc]
  pos := by rw [h'.pos, h.pos, Text.byteSize_append, Nat.add_assoc]
  elements := by rw [h'.elements, h.elements]
  grows := h.grows.trans h'.grows

theorem rest_eq (h : Covers s text s') (hrest : s.rest = text ++ later) :
  s'.rest = later
  := by
  rw [h.ahead] at hrest
  exact List.append_cancel_left hrest

theorem length_eq (h : Covers s text s') :
  s.rest.length = text.length + s'.rest.length
  := by
  rw [h.ahead, List.length_append]

/-- The expression that has been stored last. -/
theorem holds (h : Covers s text t) (shape : ExprShape) :
  (storing t shape ⟨s.pos, t.pos⟩).arena.Holds s.pos t.arena.size shape text
  := by
  rw [h.pos]
  exact holds_storing t shape s.pos text

/-- A term is stored behind which blanks have been passed. -/
theorem stored {span : Span} (h : Covers s (term.print ++ blanks) t)
    (hspan : span = ⟨s.pos, s.pos + byteSize term.print⟩)
    (hlocates : (storing t shape span).arena.Locates s.pos t.arena.size term) :
  term.Between s blanks ⟨t.arena.size, span⟩ (storing t shape span)
  where
  ahead := h.ahead
  pos := h.pos
  elements := h.elements
  grows := h.grows.trans (storing_grows t shape span)
  locates := hlocates
  span := hspan

/-- A term is stored that ends here. -/
theorem stored_here (h : Covers s term.print t)
    (hlocates : (storing t shape ⟨s.pos, t.pos⟩).arena.Locates s.pos t.arena.size term) :
  term.Between s [] ⟨t.arena.size, ⟨s.pos, t.pos⟩⟩ (storing t shape ⟨s.pos, t.pos⟩)
  := by
  have hcovers : Covers s (term.print ++ []) t := by rwa [List.append_nil]
  apply stored hcovers _ hlocates
  rw [h.pos]

end Covers

theorem Between.rest_eq {blanks : List Char} (h : term.Between s blanks node s')
    (hrest : s.rest = term.print ++ (blanks ++ later)) :
  s'.rest = later
  := by
  apply h.toCovers.rest_eq
  rw [hrest, List.append_assoc]

/-- More blanks can be passed behind a term. -/
theorem Between.append {blanks : List Char} (h : term.Between s [] node t)
    (hblanks : t.Passes blanks s') :
  term.Between s blanks node s'
  where
  toCovers := by
    have hcovers := h.toCovers.trans (.of_passes hblanks)
    rwa [List.append_nil] at hcovers
  locates := by
    rw [hblanks.arena]
    exact h.locates
  span := h.span

/-! ### What the scans read -/

/-- What an operand is without operators around it. -/
def ReadsPrimary (term : Term) : Prop :=
  ∀ {context : Context} {s : State} {later : List Char}, context.Ample s.rest.length →
    s.rest = term.print ++ later → (∀ c ∈ later.head?, isNameChar c = false) →
    ∃ node s', Yields (primary context) s node s' ∧ term.Between s [] node s'

/-- The term has been read, and what follows an operand is looked for. -/
def ReadsPostfixed (term : Term) : Prop :=
  ∀ {context : Context} {s : State} {later : List Char}, context.Ample s.rest.length →
    s.rest = term.print ++ later → (∀ c ∈ later.head?, isNameChar c = false) →
    ∃ node t budget, term.Between s [] node t ∧ t.rest.length < budget ∧
      ∀ {node' s'}, Yields (suffixes context budget node) t node' s' →
        Yields (primary context >>= suffixes context context.budget) s node' s'

def ReadsUnary (term : Term) : Prop :=
  ∀ {context : Context} {s : State} {blanks later : List Char}, context.Ample s.rest.length →
    s.rest = term.print ++ (blanks ++ later) → (∀ c ∈ blanks, isSpacing c = true) →
    EndsOperand later → ∃ node s', Yields (operand context) s node s' ∧
      term.Between s blanks node s'

/-- The term has been read, and another `&&` is looked for. -/
def ReadsConjunction (term : Term) : Prop :=
  ∀ {context : Context} {s : State} {blanks later : List Char}, context.Ample s.rest.length →
    s.rest = term.print ++ (blanks ++ later) → (∀ c ∈ blanks, isSpacing c = true) →
    EndsOperand later → ∃ node t budget, term.Between s blanks node t ∧ t.rest.length < budget ∧
      ∀ {node' s'}, Yields (andChain context budget node) t node' s' →
        Yields (conjunction context) s node' s'

/-- The term has been read, and another `||` or `??` is looked for. -/
def ReadsDisjunction (term : Term) : Prop :=
  ∀ {context : Context} {s : State} {blanks later : List Char}, context.Ample s.rest.length →
    s.rest = term.print ++ (blanks ++ later) → (∀ c ∈ blanks, isSpacing c = true) →
    EndsConjunction later →
    ∃ node t budget, term.Between s blanks node t ∧ t.rest.length < budget ∧
      ∀ {node' s'}, Yields (orChain context budget node) t node' s' →
        Yields (disjunction context) s node' s'

def ReadsConditional (term : Term) : Prop :=
  ∀ {context : Context} {s : State} {blanks later : List Char}, context.Ample s.rest.length →
    s.rest = term.print ++ (blanks ++ later) → (∀ c ∈ blanks, isSpacing c = true) →
    EndsExpression later → ∃ node s', Yields (expression context) s node s' ∧
      term.Between s blanks node s'

/-! ### Literals and names -/

/-- A string literal is read up to its closing quote. -/
theorem runs_stringLiteral_of {quote : Char} {body : List Char}
    (hpasses : s.Passes (quote :: (body ++ [quote])) s')
    (hbody : stringBody quote (body ++ quote :: s'.rest) = body.length) :
  Runs (stringLiteral quote) s (body, ⟨s.pos, s'.pos⟩) s'
  := by
  obtain ⟨t, hopen, hpasses⟩ := State.passes_cons.mp hpasses
  obtain ⟨t', hinside, hclose⟩ := State.passes_append.mp hpasses
  have hahead : t.rest = body ++ quote :: s'.rest := by rw [hinside.ahead, hclose.ahead]; rfl
  have htake : Runs (take (stringBody quote t.rest)) t body t' := by
    rw [runs_take, hahead, hbody, List.take_left]
    exact ⟨rfl, hinside.eq_after⟩
  have hhead : t'.rest.head? = some quote := by rw [hclose.ahead]; rfl
  simp only [stringLiteral, runs_bind, runs_position, runs_rest, and_assoc, exists_and_left,
    exists_eq_left]
  refine ⟨(), t, hopen.eq_after ▸ runs_skip.mpr rfl, body, t', htake, ?_⟩
  simp only [hhead, if_true, runs_bind, runs_spanFrom, runs_pure, runs_skip_one hhead]
  exact ⟨(), s', hclose, _, s', ⟨rfl, rfl⟩, rfl, rfl⟩

/-- A string literal is stored with the text that it denotes. -/
theorem runs_stringNode {quote : Quote} {q : Char} (hq : q = '"' ∨ q = '\'') {value : String}
    (hpasses : s.Passes (q :: (value.toList.flatMap (Literal.spellChar q) ++ [q])) t) :
  Runs (stringNode quote q) s ⟨t.arena.size, ⟨s.pos, t.pos⟩⟩
    (storing t (.str quote value) ⟨s.pos, t.pos⟩)
  := by
  have hliteral := runs_stringLiteral_of hpasses (stringBody_spell hq value.toList t.rest)
  simp only [stringNode, runs_bind, runs_store]
  refine ⟨_, t, hliteral, rfl, ?_⟩
  rw [Literal.decode_spell hq, String.ofList_toList]
  rfl

/-- What is read at a quote is a string literal. -/
theorem yields_primary_quote {quote : Quote} {q : Char} (hchar : quote.char? = some q)
    (hhead : s.rest.head? = some q) (hnode : Runs (stringNode quote q) s node s') :
  Yields (primary context) s node s'
  := by
  obtain ⟨text, hrest⟩ := List.head?_eq_some_iff.mp hhead
  simp only [primary, yields_bind, yields_lift, runs_position, runs_rest, and_assoc,
    exists_and_left, exists_eq_left, hrest]
  cases quote with
  | double =>
    obtain rfl := Option.some.inj hchar
    simpa using hnode
  | single =>
    obtain rfl := Option.some.inj hchar
    simpa using hnode
  | bare => simp [Quote.char?] at hchar

theorem readsPrimary_str {quote : Quote} (value : String) (hquote : quote ≠ .bare) :
  (str quote value).ReadsPrimary
  := by
  intro context s later _ hrest _
  obtain ⟨q, hchar, hq, hprint⟩ := exists_print_str hquote value
  have hpasses := State.passes_after hrest
  have hcovers := Covers.of_passes hpasses
  refine ⟨_, _, ?_, hcovers.stored_here (hcovers.holds (.str quote value))⟩
  apply yields_primary_quote hchar
  · rw [hrest, hprint]
    rfl
  · exact runs_stringNode hq (hprint ▸ hpasses)

/-- What is read at the start of a name is a name. -/
theorem yields_primary_name {name : String} (hname : IsName name) (hrefused : name ∉ refusedWords)
    (hpasses : s.Passes name.toList t) (hlater : ∀ c ∈ t.rest.head?, isNameChar c = false) :
  Yields (primary context) s ⟨t.arena.size, ⟨s.pos, t.pos⟩⟩ (storing t (.ident name) ⟨s.pos, t.pos⟩)
  := by
  have htake : Runs (takeWhile isNameChar) s name.toList t :=
    runs_takeWhile_iff.mpr ⟨hpasses, hname.all, hlater⟩
  obtain ⟨c, text, hcons, hstart⟩ := hname.exists_cons
  have hrest := hpasses.ahead
  rw [hcons, List.cons_append] at hrest
  have hne : ∀ d ∈ ['"', '\'', '\x60', '(', '[', '\x7b', '<'], c ≠ d := by
    rintro d hd rfl
    simp only [List.mem_cons, List.not_mem_nil, or_false] at hd
    obtain rfl | rfl | rfl | rfl | rfl | rfl | rfl := hd <;> simp [isNameStart] at hstart
  simp only [List.forall_mem_cons] at hne
  simp only [primary, yields_bind, yields_lift, runs_position, runs_rest, and_assoc,
    exists_and_left, exists_eq_left, hrest, hne, hstart, isDigit_of_isNameStart hstart, if_true,
    if_false, decide_false, Bool.false_and, Bool.false_eq_true, yields_guard, runs_spanFrom,
    runs_store]
  refine ⟨_, t, htake, ?_, rfl, (), ?_⟩
  · simpa using hrefused
  · rw [String.ofList_toList]
    rfl

theorem readsPrimary_ident {name : String} (hname : IsName name) (hrefused : name ∉ refusedWords) :
  (ident name).ReadsPrimary
  := by
  intro context s later _ hrest hlater
  have hpasses := State.passes_after hrest
  have hcovers := Covers.of_passes hpasses
  refine ⟨_, _, ?_, hcovers.stored_here (hcovers.holds (.ident name))⟩
  apply yields_primary_name hname hrefused hpasses
  rwa [hcovers.rest_eq hrest]

/-! ### Regions -/

/-- A term that is a whole region. -/
def ReadsRegion (term : Term) : Prop :=
  ∀ {context : Context} {s : State} {stops blanks later : List Char} {c : Char},
    context.Ample s.rest.length → s.rest = term.print ++ (blanks ++ c :: later) →
    (∀ c ∈ blanks, isSpacing c = true) → c ∈ closers → c ∈ stops →
    ∃ node s', Runs (region context stops) s node s' ∧ term.Between s blanks node s'

/-- Where a term stands there are no blanks to pass. -/
theorem Derives.settled {level : Level} (h : term.Derives level) (later : List Char) :
  Settled (term.print ++ later)
  := by
  obtain ⟨c, text, hprint, hopens⟩ := h.exists_cons
  rw [hprint]
  exact hopens.settled _

/-- An expression up to the end of its region is the region. -/
theorem ReadsConditional.region {level : Level} (h : term.ReadsConditional)
    (hderives : term.Derives level) :
  term.ReadsRegion
  := by
  intro context s stops blanks later c hample hrest hblanks hcloser hstop
  obtain ⟨node, s', hyields, hbetween⟩ :=
    h hample hrest hblanks (endsExpression_of_mem hcloser later)
  have hrest' : s'.rest = c :: later := hbetween.rest_eq hrest
  have hwhole : Yields (wholeExpression context stops) s node s' := by
    have hsettled : Settled s'.rest := by
      rw [hrest']
      exact (endsExpression_of_mem hcloser later).settled
    simp only [wholeExpression, yields_bind, yields_lift, yields_pure, yields_guard, runs_rest]
    have hskip : Runs skipTrivia _ () _ := (runs_skipTrivia_settled hsettled).mpr rfl
    refine ⟨node, s', hyields, (), s', hskip, _, _, ⟨rfl, rfl⟩, (), s', ?_, rfl, rfl⟩
    simp [hrest', hstop]
  refine ⟨node, s', ?_, hbetween⟩
  have hsettled : Settled s.rest := by
    rw [hrest]
    exact hderives.settled _
  simp only [Scan.region, runs_bind, runs_get]
  have hskip : Runs skipTrivia _ () _ := (runs_skipTrivia_settled hsettled).mpr rfl
  exact ⟨(), s, hskip, s, s, ⟨rfl, rfl⟩, some node, s', hwhole, by simp⟩

/-- A term that is a whole region inside another construct. -/
theorem ReadsRegion.nested (h : term.ReadsRegion) (stops : List Char) {blanks : List Char}
    {c : Char} {count : Nat} (hample : context.Ample count) (hlt : s.rest.length < count)
    (hrest : s.rest = term.print ++ (blanks ++ c :: later))
    (hblanks : ∀ c ∈ blanks, isSpacing c = true) (hcloser : c ∈ closers) (hstop : c ∈ stops) :
  ∃ node s', Runs (context.nested.region stops) s node s' ∧ term.Between s blanks node s'
  := by
  obtain ⟨inner, hinner, -, hnested⟩ := hample.exists_scans hlt
  rw [hnested]
  exact h hinner hrest hblanks hcloser hstop

/-! ### Parentheses -/

/-- What is read at a parenthesis is an expression in parentheses. -/
theorem yields_primary_paren (hhead : s.rest.head? = some '(') :
  Yields (primary context) s node s' ↔ Yields (parenNode context) s node s'
  := by
  obtain ⟨text, hrest⟩ := List.head?_eq_some_iff.mp hhead
  simp [primary, hrest]

/-- An expression in parentheses is read between them. -/
theorem readsPrimary_paren {level : Level} (hinner : term.ReadsConditional)
    (hderives : term.Derives level) :
  term.paren.ReadsPrimary
  := by
  intro context s later hample hrest _
  have hrest' : s.rest = '(' :: (term.print ++ ')' :: later) := by simpa [print] using hrest
  have hopen : s.Passes ['('] (s.after 1) := State.passes_after hrest'
  have hahead : (s.after 1).rest = term.print ++ ([] ++ ')' :: later) := by
    rw [s.after_rest, hrest']
    rfl
  have hends := endsExpression_of_mem (c := ')') (by simp [closers]) later
  have hlt : (s.after 1).rest.length < s.rest.length := by simp [hrest']
  obtain ⟨inner, hample', -, hnested⟩ := hample.exists_scans hlt
  obtain ⟨node, t, hyields, hbetween⟩ := hinner hample' hahead (by simp) hends
  have hclosing : t.rest = ')' :: later := hbetween.rest_eq hahead
  have hclose : t.Passes [')'] (t.after 1) := State.passes_after hclosing
  have hcovers : Covers s term.paren.print (t.after 1) := by
    have hparts := (Covers.of_passes hopen).trans (hbetween.toCovers.trans (.of_passes hclose))
    simpa [print] using hparts
  refine ⟨_, _, ?_, hcovers.stored_here ⟨node.id, hcovers.holds (.paren node.id), ?_⟩⟩
  · rw [yields_primary_paren (by rw [hrest']; rfl)]
    have hsettled : Settled (s.after 1).rest := by
      rw [hahead]
      exact hderives.settled _
    have hsettled' : Settled t.rest := by
      rw [hclosing]
      exact hends.settled
    simp only [parenNode, yields_bind, yields_lift, runs_position, runs_skip, yields_guard,
      runs_rest, runs_spanFrom, runs_store, runs_skipTrivia_settled hsettled, hnested, and_assoc,
      exists_and_left, exists_eq_left, exists_const]
    refine ⟨node, t, hyields, ?_⟩
    simp only [runs_skipTrivia_settled hsettled', exists_eq_left]
    exact ⟨(), by rw [hclosing]; rfl, trivial, rfl⟩
  · have hpos : (s.after 1).pos = s.pos + 1 := hopen.pos
    rw [← hpos]
    apply hbetween.locates.mono
    exact storing_grows (t.after 1) _ _

end UtilityClasses.Term
