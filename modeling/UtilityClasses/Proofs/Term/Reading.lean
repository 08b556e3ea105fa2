import UtilityClasses.Proofs.Term.Items

/-!
# Reading terms

The scan of each level of the grammar reads the terms of the level, by induction on the grammar.
-/

namespace UtilityClasses.Term

open Scan
open Text (byteSize)

variable {context : Context} {s t s' : State} {node : Node} {later : List Char} {term : Term}

/-- A term that has been read is where a loop over what follows it starts. -/
theorem Between.exists_loop {operand : Attempt Node} {loop : Nat → Node → Attempt Node}
    {blanks : List Char} (h : term.Between s blanks node t) (hample : context.Ample s.rest.length)
    (hyields : Yields operand s node t) :
  ∃ node t budget, term.Between s blanks node t ∧ t.rest.length < budget ∧
    ∀ {node' s'}, Yields (loop budget node) t node' s' →
      Yields (operand >>= loop context.budget) s node' s'
  := by
  have hlength := h.length_eq
  have hlt := hample.lt_budget
  refine ⟨node, t, context.budget, h, by omega, ?_⟩
  intro node' s' hmore
  exact yields_bind.mpr ⟨node, t, hyields, hmore⟩

/-! ### Member access and calls -/

theorem ReadsPrimary.postfixed (h : term.ReadsPrimary) :
  term.ReadsPostfixed
  := by
  intro context s later hample hrest hlater
  obtain ⟨node, t, hyields, hbetween⟩ := h hample hrest hlater
  exact hbetween.exists_loop hample hyields

/-- What follows an operand is read, and more may follow it. -/
theorem yields_suffixes_of_suffix {budget : Nat} {node node' found : Node}
    (hsettled : Settled s.rest)
    (hsuffix : Yields (suffix? context node) s (some node') t)
    (hmore : Yields (suffixes context budget node') t found s') :
  Yields (suffixes context (budget + 1) node) s found s'
  := by
  simp only [suffixes, yields_bind, yields_lift, runs_skipTrivia_settled hsettled,
    exists_eq_left, exists_const]
  exact ⟨some node', t, hsuffix, hmore⟩

theorem yields_propertyName {name : String} (hname : IsName name)
    (hpasses : s.Passes name.toList t) (hlater : ∀ c ∈ t.rest.head?, isNameChar c = false) :
  Yields propertyName s name t
  := by
  obtain ⟨c, text, hcons, hstart⟩ := hname.exists_cons
  have hhead : s.rest.head? = some c := by rw [hpasses.ahead, hcons]; rfl
  have hmark : c ≠ '#' := ne_of_isNameChar (isNameChar_of_isNameStart hstart) rfl
  have htake : Runs (takeWhile isNameChar) s name.toList t :=
    runs_takeWhile_iff.mpr ⟨hpasses, hname.all, hlater⟩
  simp only [propertyName, yields_bind, yields_lift, runs_rest, yields_guard, and_assoc,
    exists_and_left, exists_eq_left, hhead, Option.some.injEq, hmark, if_false, runs_take,
    List.take_zero, State.after_zero, Option.any_some, hstart, yields_pure, List.nil_append]
  refine ⟨trivial, (), name.toList, t, htake, ?_, rfl⟩
  rw [String.ofList_toList]

/-- What follows a dot is the name of a property. -/
theorem yields_suffix_dot {property : String} (hproperty : IsName property)
    (hahead : s.rest = '.' :: (property.toList ++ later))
    (hlater : ∀ c ∈ later.head?, isNameChar c = false) {r : State}
    (hname : (s.after 1).Passes property.toList r) :
  Yields (suffix? context node) s (some ⟨r.arena.size, ⟨node.span.start, r.pos⟩⟩)
    (storing r (.member node.id property) ⟨node.span.start, r.pos⟩)
  := by
  obtain ⟨c, text, hcons, hstart⟩ := hproperty.exists_cons
  have hrest := (passes_one hahead).2
  have hsettled : Settled (s.after 1).rest := by
    rw [hrest, hcons]
    exact Opens.settled (.inr hstart) _
  have hdot : c ≠ '.' := ne_of_isNameChar (isNameChar_of_isNameStart hstart) rfl
  have hr : r.rest = later := (Covers.of_passes hname).rest_eq hrest
  have hname' := yields_propertyName hproperty hname (by rwa [hr])
  simp only [suffix?, yields_bind, yields_lift, runs_rest, and_assoc, exists_and_left,
    exists_eq_left]
  rw [if_pos (by simp [hahead, hcons, hdot])]
  simp only [memberNode, yields_bind, yields_lift, runs_skip, runs_skipTrivia_settled hsettled,
    runs_spanFrom, runs_store, yields_pure, and_assoc, exists_and_left, exists_eq_left,
    exists_const]
  exact ⟨_, _, ⟨property, r, hname', rfl, rfl⟩, rfl, rfl⟩

/-- What follows the part that has been read makes it the whole term. -/
def Extends (part : Term) (suffix : List Char) (whole : Term) : Prop :=
  ∀ {context : Context} {s t : State} {node : Node} {later : List Char},
    context.Ample t.rest.length → part.Between s [] node t → t.rest = suffix ++ later →
    (∀ c ∈ later.head?, isNameChar c = false) →
    ∃ shape r, Covers t suffix r ∧
      Yields (suffix? context node) t (some ⟨r.arena.size, ⟨s.pos, r.pos⟩⟩)
        (storing r shape ⟨s.pos, r.pos⟩) ∧
      (Covers s whole.print r →
        (storing r shape ⟨s.pos, r.pos⟩).arena.Locates s.pos r.arena.size whole)

/-- A part with what follows it is read. -/
theorem ReadsPostfixed.extend {part whole : Term} {c : Char} {suffix : List Char}
    (h : part.ReadsPostfixed) (hprint : whole.print = part.print ++ c :: suffix)
    (hc : isNameChar c = false) (hsettled : ∀ later, Settled (c :: later))
    (hextends : part.Extends (c :: suffix) whole) :
  whole.ReadsPostfixed
  := by
  intro context s later hample hrest hlater
  have hrest' : s.rest = part.print ++ c :: (suffix ++ later) := by
    rw [hrest, hprint, List.append_assoc]
    rfl
  obtain ⟨node, t, budget, hbetween, hbudget, hmore⟩ := h hample hrest' (by rintro _ ⟨⟩; exact hc)
  have hahead : t.rest = c :: (suffix ++ later) := hbetween.rest_eq hrest'
  have hlength := hbetween.length_eq
  obtain ⟨shape, r, hcovers, hsuffix, hlocates⟩ :=
    hextends (hample.mono (by omega)) hbetween hahead hlater
  have hwhole : Covers s whole.print r := by
    rw [hprint]
    simpa using hbetween.toCovers.trans hcovers
  have hlength' := hcovers.length_eq
  obtain ⟨budget, rfl⟩ := Nat.exists_eq_add_one_of_ne_zero (Nat.ne_zero_of_lt hbudget)
  refine ⟨_, _, budget, hwhole.stored_here (hlocates hwhole), ?_, ?_⟩
  · change r.rest.length < budget
    simp only [List.length_cons] at hlength'
    omega
  · intro node' s' hlater'
    apply hmore
    apply yields_suffixes_of_suffix _ hsuffix hlater'
    rw [hahead]
    exact hsettled _

theorem extends_member {property : String} (hproperty : IsName property) :
  term.Extends ('.' :: property.toList) (member term property)
  := by
  intro context s t node later _ hbetween hahead hlater
  obtain ⟨hdot, hahead'⟩ := passes_one hahead
  have hname := State.passes_after hahead'
  have hcovers := Covers.of_passes (hdot.trans hname)
  have hsuffix : Yields (suffix? context node) t _ _ :=
    yields_suffix_dot hproperty hahead hlater hname
  rw [hbetween.span] at hsuffix
  refine ⟨.member node.id property, _, hcovers, hsuffix, ?_⟩
  intro hwhole
  refine ⟨node.id, hwhole.holds _, ?_⟩
  exact hbetween.locates.mono (hcovers.grows.trans (storing_grows _ _ _))

/-- What follows a parenthesis are the arguments of a call. -/
theorem yields_suffix_paren {args : List ExprId} {r : State} (hhead : s.rest.head? = some '(')
    (hargs : Yields (callArguments context context.budget []) (s.after 1) args r) :
  Yields (suffix? context node) s (some ⟨r.arena.size, ⟨node.span.start, r.pos⟩⟩)
    (storing r (.call node.id args) ⟨node.span.start, r.pos⟩)
  := by
  obtain ⟨text, hrest⟩ := List.head?_eq_some_iff.mp hhead
  simp only [suffix?, yields_bind, yields_lift, runs_rest, and_assoc, exists_and_left,
    exists_eq_left]
  rw [if_neg (by simp [hrest]), if_neg (by simp [hrest, startsOptional]), if_pos hhead]
  simp only [callNode, yields_bind, yields_lift, runs_skip, runs_spanFrom, runs_store, yields_pure,
    and_assoc, exists_and_left, exists_eq_left, exists_const]
  exact ⟨_, _, ⟨args, r, hargs, rfl, rfl⟩, rfl, rfl⟩

theorem extends_call {args : List Term} (hargs : ∀ arg ∈ args, arg.ReadsRegion)
    (hderives : ∀ arg ∈ args, arg.Derives .conditional) :
  term.Extends ('(' :: (printItems args ++ [')'])) (call term args)
  := by
  intro context s t node later hample hbetween hahead _
  have hahead : t.rest = '(' :: (printItems args ++ ')' :: later) := by simpa using hahead
  obtain ⟨hopen, hahead'⟩ := passes_one hahead
  have hahead' : (t.after 1).rest = [] ++ (printItems args ++ ')' :: later) := hahead'
  have hlt : (t.after 1).rest.length < t.rest.length := by simp [hahead]
  obtain ⟨ids, r, hyields, hcovers, hlocates⟩ := (lists_callArguments context).reads
    (by simp [closers]) hargs hderives [] hample hlt
    (Nat.lt_trans hlt hample.lt_budget) hahead' (by simp)
  have hcovers := (Covers.of_passes hopen).trans hcovers
  have hsuffix : Yields (suffix? context node) t _ _ :=
    yields_suffix_paren (by rw [hahead]; rfl) hyields
  rw [hbetween.span] at hsuffix
  refine ⟨.call node.id ids, r, hcovers, hsuffix, ?_⟩
  intro hwhole
  have hpos : (t.after 1).pos + byteSize [] = s.pos + byteSize term.print + 1 := by
    rw [hopen.pos, hbetween.pos, List.append_nil]
    rfl
  rw [hpos] at hlocates
  refine ⟨node.id, ids, hwhole.holds _, ?_, ?_⟩
  · exact hbetween.locates.mono (hcovers.grows.trans (storing_grows _ _ _))
  · exact hlocates.mono (storing_grows r _ _)

/-! ### Operands -/

/-- Behind blanks no name goes on either. -/
theorem name_append {blanks : List Char} (hblanks : ∀ c ∈ blanks, isSpacing c = true)
    (h : EndsOperand later) :
  ∀ c ∈ (blanks ++ later).head?, isNameChar c = false
  := by
  cases blanks with
  | nil => exact h.name
  | cons d blanks =>
    rintro _ ⟨⟩
    have hd := hblanks d List.mem_cons_self
    simp only [isSpacing, Bool.or_eq_true, decide_eq_true_eq] at hd
    obtain (((rfl | rfl) | rfl) | rfl) | rfl := hd <;> rfl

/-- Where an operand ends, nothing that could follow it is found. -/
theorem yields_suffix_none (h : EndsOperand s.rest) :
  Yields (suffix? context node) s none s
  := by
  have hsuffix : ∀ c ∈ ['.', '(', '[', '!'], s.rest.head? ≠ some c := by
    intro c hc hhead
    have hne := h.suffix c hhead
    simp only [List.mem_cons, List.not_mem_nil, or_false] at hc
    tauto
  simp only [List.forall_mem_cons] at hsuffix
  simp [suffix?, hsuffix, h.optional]

/-- Where an operand ends, it is all that is read. -/
theorem yields_suffixes_of_ends {blanks : List Char} {budget : Nat} (hpasses : s.Passes blanks t)
    (hblanks : ∀ c ∈ blanks, isSpacing c = true) (hends : EndsOperand t.rest) :
  Yields (suffixes context (budget + 1) node) s node t
  := by
  have hskip : Runs skipTrivia s () t :=
    (runs_skipTrivia_of_settled hpasses.ahead hblanks hends.settled).mpr hpasses
  simp only [suffixes, yields_bind, yields_lift]
  exact ⟨(), t, hskip, none, t, yields_suffix_none hends, yields_pure.mpr ⟨rfl, rfl⟩⟩

theorem ReadsPostfixed.unary (h : term.ReadsPostfixed) (hderives : term.Derives .postfixed) :
  term.ReadsUnary
  := by
  intro context s blanks later hample hrest hblanks hends
  have hname := name_append hblanks hends
  obtain ⟨node, t, budget, hbetween, hbudget, hmore⟩ := h hample hrest hname
  have hahead : t.rest = blanks ++ later := hbetween.rest_eq hrest
  have hpasses := State.passes_after hahead
  have hends : EndsOperand (t.after blanks.length).rest := by
    rwa [State.after_length_rest hahead]
  obtain ⟨budget, rfl⟩ := Nat.exists_eq_add_one_of_ne_zero (Nat.ne_zero_of_lt hbudget)
  have hoperand := hmore (yields_suffixes_of_ends hpasses hblanks hends)
  refine ⟨node, t.after blanks.length, ?_, hbetween.append hpasses⟩
  -- there is no operator in front of the operand
  have hsettled : Settled s.rest := by
    rw [hrest]
    exact hderives.settled _
  have hdots : ['.', '.', '.'].isPrefixOf s.rest = false := by
    obtain ⟨c, hhead, -, hdot⟩ := hderives.exists_head
    obtain ⟨text, hprint⟩ := List.head?_eq_some_iff.mp hhead
    rw [hrest, hprint]
    simp [List.isPrefixOf, (hdot (.inr rfl)).symm]
  have hlength : unaryLength s.rest = 0 := by
    rw [hrest]
    exact hderives.unaryLength_eq_zero (.inr rfl) hname
  simp only [operand, yields_bind, yields_lift, runs_skipTrivia_settled hsettled, runs_position,
    runs_rest, and_assoc, exists_and_left, exists_eq_left, hdots, hlength, Nat.lt_irrefl, if_false,
    Bool.false_eq_true, exists_const]
  exact yields_bind.mp hoperand

/-- Three dots in front of an operand are a spread. -/
theorem ReadsUnary.spread {level : Level} (h : term.ReadsUnary) (hderives : term.Derives level) :
  term.spread.ReadsUnary
  := by
  intro context s blanks later hample hrest hblanks hends
  have hrest' : s.rest = ['.', '.', '.'] ++ (term.print ++ (blanks ++ later)) := by
    simpa [print] using hrest
  have hdots : s.Passes ['.', '.', '.'] (s.after 3) := State.passes_after hrest'
  have hahead : (s.after 3).rest = term.print ++ (blanks ++ later) := State.after_length_rest hrest'
  have hlt : (s.after 3).rest.length < s.rest.length := by
    rw [hdots.ahead, List.length_append]
    simp
  obtain ⟨inner, hample', -, hnested⟩ := hample.exists_scans hlt
  obtain ⟨node, t, hyields, hbetween⟩ := h hample' hahead hblanks hends
  have hsettled : Settled s.rest := by
    rw [hrest']
    rintro _ ⟨⟩
    decide
  have hsettled' : Settled (s.after 3).rest := by
    rw [hahead]
    exact hderives.settled _
  have hcovers : Covers s (term.spread.print ++ blanks) t := by
    simpa [print] using (Covers.of_passes hdots).trans hbetween.toCovers
  have hpos : (s.after 3).pos = s.pos + 3 := hdots.pos
  have hsize : byteSize term.spread.print = 3 + byteSize term.print :=
    Text.byteSize_append ['.', '.', '.'] term.print
  have hspan : (⟨s.pos, node.span.stop⟩ : Span) = ⟨s.pos, s.pos + byteSize term.spread.print⟩ := by
    rw [hbetween.span, hpos, hsize, Nat.add_assoc]
  refine ⟨_, storing t (.spread node.id) _, ?_, hcovers.stored hspan ⟨node.id, ?_, ?_⟩⟩
  · simp only [operand, yields_bind, yields_lift, runs_skipTrivia_settled hsettled, runs_position,
      runs_rest, and_assoc, exists_and_left, exists_eq_left, exists_const]
    rw [if_pos (by rw [hrest']; simp [List.isPrefixOf])]
    simp only [yields_bind, yields_lift, runs_skip, runs_skipTrivia_settled hsettled', hnested,
      runs_store, exists_eq_left, exists_const]
    exact ⟨node, t, hyields, rfl, rfl⟩
  · rw [hspan]
    exact holds_storing t _ s.pos _
  · rw [← hpos]
    exact hbetween.locates.mono (storing_grows t _ _)

/-! ### Logical operators -/

theorem ReadsUnary.conjunction (h : term.ReadsUnary) :
  term.ReadsConjunction
  := by
  intro context s blanks later hample hrest hblanks hends
  obtain ⟨node, t, hyields, hbetween⟩ := h hample hrest hblanks hends
  exact hbetween.exists_loop hample hyields

/-- Two operands that have been read, with a blank before and after the operator, are stored. -/
theorem Between.logical {op : LogicalOp} {left right : Term} {node node' : Node}
    {blanks : List Char}
    {r : State} (hleft : left.Between s [' '] node t)
    (hop : t.Passes (op.render.toList ++ [' ']) r) (hright : right.Between r blanks node' s') :
  (Term.logical op left right).Between s blanks ⟨s'.arena.size, node.span.merge node'.span⟩
    (storing s' (.logical op node.id node'.id) (node.span.merge node'.span))
  := by
  have hsize : byteSize (op.render.toList ++ [' ']) = 3 := by cases op <;> rfl
  have hpos : r.pos = s.pos + byteSize left.print + 4 := by
    have hblank : byteSize [' '] = 1 := rfl
    rw [hop.pos, hleft.pos, hsize, Text.byteSize_append]
    omega
  have hcovers : Covers s ((Term.logical op left right).print ++ blanks) s' := by
    simpa [print] using hleft.toCovers.trans ((Covers.of_passes hop).trans hright.toCovers)
  have hspan : node.span.merge node'.span =
      ⟨s.pos, s.pos + byteSize (Term.logical op left right).print⟩ := by
    have hprint : byteSize (Term.logical op left right).print =
        byteSize left.print + 4 + byteSize right.print := by
      have hblank : Char.utf8Size ' ' = 1 := rfl
      simp only [Text.byteSize_append, byteSize] at hsize
      simp only [print, Text.byteSize_append, byteSize]
      omega
    rw [hleft.span, hright.span, hpos, Span.merge, hprint, Span.mk.injEq]
    constructor
    · simp only
      omega
    · simp only
      omega
  refine hcovers.stored hspan ⟨node.id, node'.id, ?_, ?_, ?_⟩
  · rw [hspan]
    exact holds_storing s' _ s.pos _
  · exact hleft.locates.mono
      ((Covers.of_passes hop).grows.trans (hright.grows.trans (storing_grows s' _ _)))
  · rw [← hpos]
    exact hright.locates.mono (storing_grows s' _ _)

/-- An operator is passed with the blank behind it. -/
theorem exists_passes_operator {op : LogicalOp} (hrest : s.rest = op.render.toList ++ ' ' :: later)
    (hsettled : Settled later) :
  ∃ t, s.Passes (op.render.toList ++ [' ']) t ∧ t.rest = later ∧ Runs skipTrivia (s.after 2) () t
  := by
  have hop : s.Passes op.render.toList (s.after 2) := by
    have hlength : op.render.toList.length = 2 := by cases op <;> rfl
    rw [← hlength]
    exact State.passes_after hrest
  have hahead : (s.after 2).rest = [' '] ++ later := (Covers.of_passes hop).rest_eq hrest
  have hblank := State.passes_after hahead
  refine ⟨_, hop.trans hblank, State.after_length_rest hahead, ?_⟩
  exact (runs_skipTrivia_of_settled hahead (by simp; rfl) hsettled).mpr hblank

/-- Behind an operand, another `&&` and its operand are read, and more may follow. -/
theorem ReadsConjunction.and {left right : Term} {level : Level} (hleft : left.ReadsConjunction)
    (hright : right.ReadsUnary) (hderives : right.Derives level) :
  (logical .and left right).ReadsConjunction
  := by
  intro context s blanks later hample hrest hblanks hends
  have hrest' : s.rest = left.print ++ ([' '] ++
      (LogicalOp.and.render.toList ++ ' ' :: (right.print ++ (blanks ++ later)))) := by
    simpa [print] using hrest
  obtain ⟨node, t, budget, hbetween, hbudget, hmore⟩ :=
    hleft hample hrest' (by simp; rfl) (endsOperand_and _)
  have hahead := hbetween.rest_eq hrest'
  obtain ⟨r, hop, hahead', hskip⟩ := exists_passes_operator hahead (hderives.settled _)
  have hlength := hbetween.length_eq
  have hlength' := (Covers.of_passes hop).length_eq
  obtain ⟨node', r', hyields, hbetween'⟩ := hright (hample.mono (by omega)) hahead' hblanks hends
  have hlength'' := hbetween'.length_eq
  obtain ⟨budget, rfl⟩ := Nat.exists_eq_add_one_of_ne_zero (Nat.ne_zero_of_lt hbudget)
  refine ⟨_, _, budget, hbetween.logical hop hbetween', ?_, ?_⟩
  · change r'.rest.length < budget
    simp only [List.length_append, List.length_singleton] at hlength'
    omega
  · intro node'' s' hlater
    have hsettled : Settled t.rest := by
      rw [hahead]
      exact (endsOperand_and _).settled
    apply hmore
    simp only [andChain, yields_bind, yields_lift, runs_skipTrivia_settled hsettled, runs_rest,
      and_assoc, exists_and_left, exists_eq_left, exists_const]
    rw [if_pos (by rw [hahead]; rfl)]
    simp only [storeLogical, yields_bind, yields_lift, runs_skip, runs_store, and_assoc,
      exists_and_left, exists_eq_left, exists_const]
    exact ⟨(), r, hskip, node', r', hyields, hlater⟩

/-- Where a conjunction ends, it is all that is read. -/
theorem ReadsConjunction.exists_yields (h : term.ReadsConjunction) {blanks : List Char}
    (hample : context.Ample s.rest.length) (hrest : s.rest = term.print ++ (blanks ++ later))
    (hblanks : ∀ c ∈ blanks, isSpacing c = true) (hends : EndsConjunction later) :
  ∃ node t, Yields (conjunction context) s node t ∧ term.Between s blanks node t
  := by
  obtain ⟨node, t, budget, hbetween, hbudget, hmore⟩ := h hample hrest hblanks hends.toEndsOperand
  have hahead := hbetween.rest_eq hrest
  have hsettled : Settled t.rest := by
    rw [hahead]
    exact hends.settled
  obtain ⟨budget, rfl⟩ := Nat.exists_eq_add_one_of_ne_zero (Nat.ne_zero_of_lt hbudget)
  refine ⟨node, t, hmore ?_, hbetween⟩
  simp only [andChain, yields_bind, yields_lift, runs_skipTrivia_settled hsettled, runs_rest,
    and_assoc, exists_and_left, exists_eq_left, exists_const]
  rw [if_neg (by rw [hahead, hends.and]; exact Bool.false_ne_true)]
  exact yields_pure.mpr ⟨rfl, rfl⟩

theorem ReadsConjunction.disjunction (h : term.ReadsConjunction) :
  term.ReadsDisjunction
  := by
  intro context s blanks later hample hrest hblanks hends
  obtain ⟨node, t, hyields, hbetween⟩ := exists_yields h hample hrest hblanks hends
  exact hbetween.exists_loop hample hyields

/-- The operators of a disjunction are told from other text by the blank behind them. -/
theorem orOperator?_render {op : LogicalOp} (hop : op ≠ .and) (later : List Char) :
  orOperator? (op.render.toList ++ ' ' :: later) = some op
  := by
  cases op with
  | and => exact absurd rfl hop
  | or | coalesce => rfl

/-- Behind a conjunction, another operator and its operand are read, and more may follow. -/
theorem ReadsDisjunction.or {op : LogicalOp} {left right : Term} {level : Level}
    (hleft : left.ReadsDisjunction) (hop : op ≠ .and) (hright : right.ReadsConjunction)
    (hderives : right.Derives level) :
  (logical op left right).ReadsDisjunction
  := by
  intro context s blanks later hample hrest hblanks hends
  have hrest' : s.rest = left.print ++ ([' '] ++
      (op.render.toList ++ ' ' :: (right.print ++ (blanks ++ later)))) := by
    simpa [print] using hrest
  obtain ⟨node, t, budget, hbetween, hbudget, hmore⟩ :=
    hleft hample hrest' (by simp; rfl) (endsConjunction_or hop _)
  have hahead := hbetween.rest_eq hrest'
  obtain ⟨r, hpasses, hahead', hskip⟩ := exists_passes_operator hahead (hderives.settled _)
  have hlength := hbetween.length_eq
  have hlength' := (Covers.of_passes hpasses).length_eq
  obtain ⟨node', r', hyields, hbetween'⟩ :=
    ReadsConjunction.exists_yields hright (hample.mono (by omega)) hahead' hblanks hends
  have hlength'' := hbetween'.length_eq
  obtain ⟨budget, rfl⟩ := Nat.exists_eq_add_one_of_ne_zero (Nat.ne_zero_of_lt hbudget)
  refine ⟨_, _, budget, hbetween.logical hpasses hbetween', ?_, ?_⟩
  · change r'.rest.length < budget
    simp only [List.length_append, List.length_singleton] at hlength'
    omega
  · intro node'' s' hlater
    have hsettled : Settled t.rest := by
      rw [hahead]
      exact (endsConjunction_or hop _).settled
    apply hmore
    simp only [orChain, yields_bind, yields_lift, runs_skipTrivia_settled hsettled, runs_rest,
      and_assoc, exists_and_left, exists_eq_left, exists_const]
    rw [hahead, orOperator?_render hop]
    simp only [storeLogical, yields_bind, yields_lift, runs_skip, runs_store, and_assoc,
      exists_and_left, exists_eq_left, exists_const]
    exact ⟨(), r, hskip, node', r', hyields, hlater⟩

/-- Where a disjunction ends, it is all that is read. -/
theorem ReadsDisjunction.exists_yields (h : term.ReadsDisjunction) {blanks : List Char}
    (hample : context.Ample s.rest.length) (hrest : s.rest = term.print ++ (blanks ++ later))
    (hblanks : ∀ c ∈ blanks, isSpacing c = true) (hends : EndsDisjunction later) :
  ∃ node t, Yields (disjunction context) s node t ∧ term.Between s blanks node t
  := by
  obtain ⟨node, t, budget, hbetween, hbudget, hmore⟩ :=
    h hample hrest hblanks hends.toEndsConjunction
  have hahead := hbetween.rest_eq hrest
  have hsettled : Settled t.rest := by
    rw [hahead]
    exact hends.settled
  obtain ⟨budget, rfl⟩ := Nat.exists_eq_add_one_of_ne_zero (Nat.ne_zero_of_lt hbudget)
  refine ⟨node, t, hmore ?_, hbetween⟩
  simp only [orChain, yields_bind, yields_lift, runs_skipTrivia_settled hsettled, runs_rest,
    and_assoc, exists_and_left, exists_eq_left, exists_const]
  rw [hahead, hends.or]
  exact yields_pure.mpr ⟨rfl, rfl⟩

/-! ### Conditionals -/

theorem ReadsDisjunction.conditional (h : term.ReadsDisjunction) :
  term.ReadsConditional
  := by
  intro context s blanks later hample hrest hblanks hends
  obtain ⟨node, t, hyields, hbetween⟩ :=
    exists_yields h hample hrest hblanks hends.toEndsDisjunction
  have hahead := hbetween.rest_eq hrest
  have hsettled : Settled t.rest := by
    rw [hahead]
    exact hends.settled
  refine ⟨node, t, ?_, hbetween⟩
  simp only [expression, yields_bind, yields_lift, runs_rest, and_assoc, exists_and_left,
    exists_eq_left]
  refine ⟨node, t, hyields, (), t, (runs_skipTrivia_settled hsettled).mpr rfl, ?_⟩
  rw [if_neg (by rw [hahead, hends.question]; exact Bool.false_ne_true)]
  exact yields_pure.mpr ⟨rfl, rfl⟩

/-- A mark with a blank behind it is passed. -/
theorem exists_passes_mark {c : Char} (hrest : s.rest = c :: ' ' :: later)
    (hsettled : Settled later) :
  ∃ t, s.Passes [c, ' '] t ∧ t.rest = later ∧ Runs skipTrivia (s.after 1) () t
  := by
  obtain ⟨hmark, hahead⟩ := passes_one hrest
  have hahead : (s.after 1).rest = [' '] ++ later := hahead
  have hblank := State.passes_after hahead
  refine ⟨_, hmark.trans hblank, State.after_length_rest hahead, ?_⟩
  exact (runs_skipTrivia_of_settled hahead (by simp; rfl) hsettled).mpr hblank

theorem ReadsConditional.nested (h : term.ReadsConditional) {blanks : List Char} {count : Nat}
    (hample : context.Ample count) (hlt : s.rest.length < count)
    (hrest : s.rest = term.print ++ (blanks ++ later)) (hblanks : ∀ c ∈ blanks, isSpacing c = true)
    (hends : EndsExpression later) :
  ∃ node s', Yields context.nested.expression s node s' ∧ term.Between s blanks node s'
  := by
  obtain ⟨inner, hinner, -, hnested⟩ := hample.exists_scans hlt
  rw [hnested]
  exact h hinner hrest hblanks hends

/-- The parts of a conditional that have been read are stored. -/
theorem Between.conditional {test consequent alternate : Term} {node node' node'' : Node}
    {blanks : List Char} {r r' q : State} (htest : test.Between s [' '] node t)
    (hquestion : t.Passes ['?', ' '] r) (hconsequent : consequent.Between r [' '] node' r')
    (hcolon : r'.Passes [':', ' '] q) (halternate : alternate.Between q blanks node'' s') :
  (Term.conditional test consequent alternate).Between s blanks
    ⟨s'.arena.size, node.span.merge node''.span⟩
    (storing s' (.conditional node.id node'.id node''.id) (node.span.merge node''.span))
  := by
  have hcovers : Covers s ((Term.conditional test consequent alternate).print ++ blanks) s' := by
    simpa [print] using htest.toCovers.trans ((Covers.of_passes hquestion).trans
      (hconsequent.toCovers.trans ((Covers.of_passes hcolon).trans halternate.toCovers)))
  have hblank : byteSize [' '] = 1 := rfl
  have hmark : byteSize ['?', ' '] = 2 := rfl
  have hmark' : byteSize [':', ' '] = 2 := rfl
  have hpos : r.pos = s.pos + byteSize test.print + 3 := by
    rw [hquestion.pos, htest.pos, Text.byteSize_append]
    omega
  have hpos' : q.pos = s.pos + byteSize test.print + 3 + byteSize consequent.print + 3 := by
    rw [hcolon.pos, hconsequent.pos, hpos, Text.byteSize_append]
    omega
  have hspan : node.span.merge node''.span =
      ⟨s.pos, s.pos + byteSize (Term.conditional test consequent alternate).print⟩ := by
    have hprint : byteSize (Term.conditional test consequent alternate).print =
        byteSize test.print + 3 + byteSize consequent.print + 3 + byteSize alternate.print := by
      simp only [byteSize] at hblank hmark hmark'
      simp only [print, Text.byteSize_append, byteSize]
      omega
    rw [htest.span, halternate.span, hpos', Span.merge, hprint, Span.mk.injEq]
    constructor
    · simp only
      omega
    · simp only
      omega
  have hgrows := (Covers.of_passes hquestion).grows.trans hconsequent.grows
  have hgrows' := (Covers.of_passes hcolon).grows.trans halternate.grows
  refine hcovers.stored hspan ⟨node.id, node'.id, node''.id, ?_, ?_, ?_, ?_⟩
  · rw [hspan]
    exact holds_storing s' _ s.pos _
  · exact htest.locates.mono (hgrows.trans (hgrows'.trans (storing_grows s' _ _)))
  · rw [← hpos]
    exact hconsequent.locates.mono (hgrows'.trans (storing_grows s' _ _))
  · rw [← hpos']
    exact halternate.locates.mono (storing_grows s' _ _)

theorem readsConditional_conditional {test consequent alternate : Term}
    (htest : test.ReadsDisjunction) (hconsequent : consequent.ReadsConditional)
    (halternate : alternate.ReadsConditional) (hderives : consequent.Derives .conditional)
    (hderives' : alternate.Derives .conditional) :
  (conditional test consequent alternate).ReadsConditional
  := by
  intro context s blanks later hample hrest hblanks hends
  have hrest' : s.rest = test.print ++ ([' '] ++ '?' :: ' ' :: (consequent.print ++ ([' '] ++
      ':' :: ' ' :: (alternate.print ++ (blanks ++ later))))) := by
    simpa [print] using hrest
  obtain ⟨node, t, hyields, hbetween⟩ := ReadsDisjunction.exists_yields htest hample hrest'
    (by simp; rfl) (endsDisjunction_question _)
  have hahead := hbetween.rest_eq hrest'
  obtain ⟨t', hquestion, hahead₁, hskip⟩ := exists_passes_mark hahead (hderives.settled _)
  have hlength := hbetween.length_eq
  have hlength' := (Covers.of_passes hquestion).length_eq
  simp only [List.length_cons, List.length_nil] at hlength'
  have hends' : EndsExpression (':' :: ' ' :: (alternate.print ++ (blanks ++ later))) :=
    endsExpression_of_mem (by simp [closers]) _
  obtain ⟨node', r, hyields', hbetween'⟩ := ReadsConditional.nested hconsequent hample (by omega)
    hahead₁ (by simp; rfl) hends'
  have hahead₂ := hbetween'.rest_eq hahead₁
  obtain ⟨r', hcolon, hahead₃, hskip'⟩ := exists_passes_mark hahead₂ (hderives'.settled _)
  have hlength₁ := hbetween'.length_eq
  have hlength₂ := (Covers.of_passes hcolon).length_eq
  obtain ⟨node'', q, hyields'', hbetween''⟩ := ReadsConditional.nested halternate hample (by omega)
    hahead₃ hblanks hends
  refine ⟨_, _, ?_, hbetween.conditional hquestion hbetween' hcolon hbetween''⟩
  have hsettled : Settled t.rest := by
    rw [hahead]
    exact (endsDisjunction_question _).settled
  have hsettled' : Settled r.rest := by
    rw [hahead₂]
    exact hends'.settled
  simp only [expression, yields_bind, yields_lift, runs_rest, and_assoc, exists_and_left,
    exists_eq_left]
  refine ⟨node, t, hyields, (), t, (runs_skipTrivia_settled hsettled).mpr rfl, ?_⟩
  rw [if_pos (by rw [hahead]; rfl)]
  simp only [yields_bind, yields_lift, runs_skip, runs_rest, yields_guard, runs_store, and_assoc,
    exists_and_left, exists_eq_left, exists_const]
  refine ⟨(), t', hskip, node', r, hyields', (), r, (runs_skipTrivia_settled hsettled').mpr rfl, ?_⟩
  exact ⟨by rw [hahead₂]; rfl, (), r', hskip', node'', q, hyields'', rfl, rfl⟩

/-! ### Terms of the grammar -/

/-- What is said of the scan of each level. -/
def Level.Reads : Level → Term → Prop
  | .primary, term => term.ReadsPrimary
  | .postfixed, term => term.ReadsPostfixed
  | .unary, term => term.ReadsUnary
  | .conjunction, term => term.ReadsConjunction
  | .disjunction, term => term.ReadsDisjunction
  | .conditional, term => term.ReadsConditional

/-- The scan of a level reads the terms of the level. -/
theorem Derives.reads {level : Level} (h : term.Derives level) :
  level.Reads term
  := by
  induction h with
  | str value hquote => exact readsPrimary_str value hquote
  | template htext hholes htexts ih =>
    refine readsPrimary_template htext (fun entry hentry => ?_) htexts
    exact ReadsConditional.region (ih entry hentry) (hholes entry hentry)
  | ident hname _ hrefused => exact readsPrimary_ident hname hrefused
  | paren hinner ih => exact readsPrimary_paren ih hinner
  | array hitems ih =>
    refine readsPrimary_array (fun item hitem => ?_) hitems
    exact ReadsConditional.region (ih item hitem) (hitems item hitem)
  | primary _ ih => exact ReadsPrimary.postfixed ih
  | member _ hproperty ih =>
    refine ReadsPostfixed.extend ih rfl rfl ?_ (extends_member hproperty)
    rintro _ _ ⟨⟩
    decide
  | call _ hargs ih ihargs =>
    refine ReadsPostfixed.extend ih rfl rfl ?_ (extends_call (fun arg harg => ?_) hargs)
    · rintro _ _ ⟨⟩
      decide
    · exact ReadsConditional.region (ihargs arg harg) (hargs arg harg)
  | postfixed h ih => exact ReadsPostfixed.unary ih h
  | spread hinner ih => exact ReadsUnary.spread ih hinner
  | unary _ ih => exact ReadsUnary.conjunction ih
  | and _ hright ihleft ihright => exact ReadsConjunction.and ihleft ihright hright
  | conjunction _ ih => exact ReadsConjunction.disjunction ih
  | or hop _ hright ihleft ihright => exact ReadsDisjunction.or ihleft hop ihright hright
  | disjunction _ ih => exact ReadsDisjunction.conditional ih
  | conditional _ hconsequent halternate ihtest ihconsequent ihalternate =>
    exact readsConditional_conditional ihtest ihconsequent ihalternate hconsequent halternate

end UtilityClasses.Term
