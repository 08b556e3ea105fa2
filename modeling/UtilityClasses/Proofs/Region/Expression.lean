import UtilityClasses.Proofs.Region.Operand

/-!
# Expressions in step with the scan of code

A parse that starts in step with the scan of well-bracketed code does not fail on an expression, and
behind what it finds it is in step again. A region ends where the scan ends, whether an expression
has been found in it or not.
-/

namespace UtilityClasses.Scan

variable {dialect : Dialect} {context : Context} {track : Track} {stack : List Char}
  {prev : Previous} {u : State} {node : Node} {count : Nat}

/-! ### Operators -/

theorem Track.InStep.punctuations (h : track.InStep prev stack u) {c : Char}
    {text later : List Char} (hrest : u.rest = c :: text ++ later)
    (hall : ∀ d ∈ c :: text, d ∈ Scan.punctuation ∧ d ≠ ',') :
  track.InStep .operator stack (u.after (text.length + 1))
  := by
  induction text generalizing u prev c with
  | nil =>
    obtain ⟨hc, hcomma⟩ := hall c List.mem_cons_self
    exact h.punctuation (by rw [hrest]; rfl) hc fun _ => hcomma
  | cons d text ih =>
    rw [List.forall_mem_cons] at hall
    have hfirst := h.punctuation (by rw [hrest]; rfl) hall.1.1 fun _ => hall.1.2
    have hmore := ih hfirst (by rw [State.after_rest, hrest]; rfl) hall.2
    rwa [State.after_after, Nat.add_comm] at hmore

/-- The parse goes on behind an operator and the blanks and comments after it. -/
theorem Track.InStep.operator {α : Type} {f : Unit → Scan α} {P : α → State → Prop}
    (h : track.InStep prev stack u) {c : Char} {text later : List Char}
    (hrest : u.rest = c :: text ++ later)
    (hall : ∀ d ∈ c :: text, d ∈ Scan.punctuation ∧ d ≠ ',')
    (hnext : ∀ t, track.InStep .operator stack t → t.rest.length < u.rest.length →
      Arrives (f ()) t P) :
  Arrives (skip (text.length + 1) >>= fun _ => Scan.skipTrivia >>= f) u P
  := by
  have hlt := length_after_lt (show u.rest ≠ [] by simp [hrest]) (Nat.succ_pos text.length)
  rw [arrives_skip]
  apply (h.punctuations hrest hall).skipTrivia.bind
  rintro _ t ⟨hinStep, hle⟩
  exact hnext t hinStep (Nat.lt_of_le_of_lt hle hlt)

/-- The words that the parse takes for operators are operators for the scan. -/
theorem exists_head_of_unaryWord {text : List Char}
    (h : unaryWords.contains (String.ofList (text.takeWhile isNameChar)) = true) :
  ∃ c, text.head? = some c ∧ isNameStart c = true ∧
    operatorWords.contains (String.ofList (text.takeWhile isNameChar)) = true
  := by
  have hall : ∀ word ∈ unaryWords,
      word.toList.head?.any isNameStart = true ∧ operatorWords.contains word = true := by decide
  obtain ⟨hstart, hoperator⟩ := hall _ (List.contains_iff_mem.mp h)
  rw [String.toList_ofList, Option.any_eq_true, List.head?_takeWhile] at hstart
  obtain ⟨c, hhead, hc⟩ := hstart
  exact ⟨c, (Option.filter_eq_some_iff.mp hhead).1, hc, hoperator⟩

/-- An operator in front of an operand, which is expected behind it. -/
theorem Track.InStep.unary (h : track.InStep prev stack u) (hpos : 0 < unaryLength u.rest) :
  track.InStep .operator stack (u.after (unaryLength u.rest)) ∧
    (u.after (unaryLength u.rest)).rest.length < u.rest.length
  := by
  have hne : u.rest ≠ [] := by
    intro hnil
    simp [hnil, unaryLength, unaryWords] at hpos
  refine ⟨?_, length_after_lt hne hpos⟩
  rw [unaryLength] at hpos ⊢
  split
  · next hsymbol =>
    simp only [Bool.and_eq_true, List.any_eq_true, decide_eq_true_eq] at hsymbol
    obtain ⟨⟨c, hc, hhead⟩, -⟩ := hsymbol
    have hplain : c ∈ Scan.punctuation ∧ c ≠ ',' := by
      simp only [List.mem_cons, List.not_mem_nil, or_false] at hc
      obtain rfl | rfl | rfl | rfl := hc <;> decide
    exact h.punctuation hhead hplain.1 fun _ => hplain.2
  · next hsymbol =>
    rw [if_neg hsymbol] at hpos
    split at hpos
    · next hword =>
      rw [if_pos hword]
      obtain ⟨c, hhead, hc, hoperator⟩ := exists_head_of_unaryWord hword
      obtain ⟨prev', hname, hprev⟩ := h.name hhead hc
      rwa [hprev hoperator] at hname
    · exact absurd hpos (Nat.lt_irrefl 0)

/-! ### Member access, calls and indices -/

theorem tries_propertyName (h : track.InStep prev stack u) :
  Tries propertyName u (track.Past stack u.rest.length)
  := by
  rw [Tries, propertyName]
  simp only [run_lift_bind, run_guard_bind]
  rw [arrives_rest, arrives_take, arrives_rest]
  have hmark : ∃ prev', track.InStep prev' stack
      (u.after (if u.rest.head? = some '#' then 1 else 0)) := by
    split
    · next hhead => exact ⟨_, h.punctuation hhead (by decide) (by simp)⟩
    · rw [State.after_zero]
      exact ⟨_, h⟩
  obtain ⟨prev', hmark⟩ := hmark
  have hle := length_after_le u (if u.rest.head? = some '#' then 1 else 0)
  generalize u.after (if u.rest.head? = some '#' then 1 else 0) = t at hmark hle
  apply Arrives.ite
  · intro hstart
    rw [Option.any_eq_true] at hstart
    obtain ⟨c, hhead, hc⟩ := hstart
    obtain ⟨prev'', hname, -⟩ := hmark.name hhead hc
    rw [arrives_takeWhile]
    have hlt := length_after_lt (Cursor.ne_nil_of_head? hhead)
      (length_takeWhile_pos hhead (isNameChar_of_isNameStart hc))
    exact .pure fun _ => ⟨⟨_, hname⟩, Nat.lt_of_lt_of_le hlt hle⟩
  · exact fun _ => .none

theorem tries_memberNode (h : track.InStep prev stack u) :
  Tries (memberNode node) u (track.Past stack u.rest.length)
  := by
  rw [Tries, memberNode]
  apply (tries_propertyName h).step
  intro property t hpast
  simp only [run_lift_bind, run_lift]
  exact hpast.found

theorem tries_callNode (hcontext : context.Keeps track.dialect u.rest.length)
    (h : track.InStep prev stack u) (hhead : u.rest.head? = some '(') :
  Tries (callNode context node) u (track.Past stack u.rest.length)
  := by
  have hlt := length_after_lt (Cursor.ne_nil_of_head? hhead) Nat.one_pos
  have hbudget := Nat.lt_trans hlt hcontext.ample.lt_budget
  rw [Tries, callNode, Cursor.callArguments_eq]
  simp only [run_lift_bind]
  rw [arrives_skip]
  apply (tries_listTail hcontext (by simp) (h.opening hhead rfl) hlt hbudget).step
  intro items t hpast
  simp only [run_lift_bind, run_lift]
  exact (hpast.mono (Nat.le_of_lt hlt)).found

theorem tries_indexNode (hcontext : context.Keeps track.dialect u.rest.length)
    (h : track.InStep prev stack u) (hhead : u.rest.head? = some '[') :
  Tries (indexNode context node) u (track.Past stack u.rest.length)
  := by
  have hlt := length_after_lt (Cursor.ne_nil_of_head? hhead) Nat.one_pos
  obtain ⟨inner, hbase, hdialect, hends, hinner, hback⟩ :=
    (h.opening hhead rfl).inner (by simp [Cursor.AreStops]) closes_bracket
  have hregion := hcontext.nested.region hdialect hlt hinner
  rw [hends] at hregion
  rw [Tries, indexNode]
  simp only [run_lift_bind, run_lift, run_guard_bind, discard_bind]
  rw [arrives_skip]
  apply hregion.bind
  intro _ t ht
  obtain ⟨⟨prev', hindex⟩, -, hle⟩ := hback t ht
  rw [arrives_rest]
  apply Arrives.ite
  · intro hclose
    rw [arrives_skip]
    exact ((hindex.past_closing hclose (by simp [IsClosing])).mono (by omega)).found
  · exact fun _ => .none

theorem tries_optionalNode (hcontext : context.Keeps track.dialect u.rest.length)
    (h : track.InStep prev stack u) :
  Tries (optionalNode context node) u (track.Past stack u.rest.length)
  := by
  rw [Tries, optionalNode]
  simp only [run_lift_bind, run_ite]
  rw [arrives_rest]
  apply Arrives.ite
  · exact fun hhead => tries_callNode hcontext h hhead
  intro _
  apply Arrives.ite
  · exact fun hhead => tries_indexNode hcontext h hhead
  · exact fun _ => tries_memberNode h

/-- Where a parse stands behind an operand after which it has looked for more. -/
def Track.Suffixed (track : Track) (stack : List Char) (u : State) :
    Option (Option Node) → State → Prop
  | none, _ => True
  | some none, t => t = u
  | some (some _), t => track.Past stack u.rest.length t

theorem arrives_suffix? (hcontext : context.Keeps track.dialect u.rest.length)
    (h : track.InStep prev stack u) :
  Arrives (suffix? context node).run u (track.Suffixed stack u)
  := by
  have hsome {x : Attempt Node} {t : State} {count : Nat} (hle : count ≤ u.rest.length)
      (hx : Tries x t (track.Past stack count)) :
      Arrives (x >>= fun longer => return some longer).run t (track.Suffixed stack u) :=
    hx.attempt (fun _ => trivial) fun _ _ hpast => .pure (hpast.mono hle)
  rw [suffix?]
  simp only [run_lift_bind, run_ite]
  rw [arrives_rest]
  apply Arrives.ite
  · intro hdot
    rw [Bool.and_eq_true, decide_eq_true_eq] at hdot
    obtain ⟨later, hrest⟩ : ∃ later, u.rest = '.' :: [] ++ later :=
      List.head?_eq_some_iff.mp hdot.1
    apply h.operator hrest (by simp [Scan.punctuation])
    intro t hmember hlt
    exact hsome (Nat.le_of_lt hlt) (tries_memberNode hmember)
  intro _
  apply Arrives.ite
  · intro hoptional
    obtain ⟨later, hrest⟩ : ∃ later, u.rest = '?' :: ['.'] ++ later := by
      rw [startsOptional.eq_def] at hoptional
      split at hoptional
      · next later hrest => exact ⟨later, hrest⟩
      · cases hoptional
    apply h.operator hrest (by simp [Scan.punctuation])
    intro t hchain hlt
    have hle := Nat.le_of_lt hlt
    exact hsome hle (tries_optionalNode (hcontext.mono hle) hchain)
  intro _
  apply Arrives.ite
  · exact fun hhead => hsome (Nat.le_refl _) (tries_callNode hcontext h hhead)
  intro _
  apply Arrives.ite
  · exact fun hhead => hsome (Nat.le_refl _) (tries_indexNode hcontext h hhead)
  intro _
  apply Arrives.ite
  · intro hmark
    rw [Bool.and_eq_true, decide_eq_true_eq] at hmark
    rw [arrives_skip, arrives_spanFrom]
    have hpast : track.Past stack u.rest.length (u.after 1) :=
      ⟨⟨_, h.punctuation hmark.1 (by decide) (by simp)⟩,
        length_after_lt (Cursor.ne_nil_of_head? hmark.1) Nat.one_pos⟩
    apply hpast.store.bind
    exact fun _ _ hpast => .pure hpast
  · exact fun _ => .pure rfl

/-- What follows an operand is passed. -/
theorem tries_suffixes (hcontext : context.Keeps track.dialect count) {budget : Nat}
    (h : track.Past stack count u) (hbudget : u.rest.length < budget) :
  Tries (suffixes context budget node) u (track.Past stack count)
  := by
  induction budget generalizing u node with
  | zero => omega
  | succ budget ih =>
    obtain ⟨⟨prev, hinStep⟩, hlt⟩ := h
    rw [Tries, suffixes]
    simp only [run_lift_bind]
    apply hinStep.skipTrivia.bind
    rintro _ t ⟨hinStep, hle⟩
    have hcount := Nat.le_trans hle (Nat.le_of_lt hlt)
    rw [OptionT.run_bind]
    apply (arrives_suffix? (hcontext.mono hcount) hinStep).bind
    intro found v hfound
    obtain _ | _ | longer := found
    · exact .none
    · obtain rfl : v = t := hfound
      exact .pure fun _ => ⟨⟨_, hinStep⟩, Nat.lt_of_le_of_lt hle hlt⟩
    · have hpast : track.Past stack t.rest.length v := hfound
      have hshort := hpast.length_lt
      exact ih (hpast.mono hcount) (by omega)

/-- An operand with the operators in front of it and what follows it. -/
theorem tries_operand (hcontext : context.Keeps track.dialect u.rest.length)
    (h : track.InStep .operator stack u) :
  Tries (operand context) u (track.Past stack u.rest.length)
  := by
  have hnested {t : State} {shape : Node → ExprShape} {start : Nat}
      (hinner : track.InStep .operator stack t) (hlt : t.rest.length < u.rest.length) :
      Arrives (context.nested.operand >>= fun inner => (liftM
        (store (shape inner) ⟨start, inner.span.stop⟩) : Attempt Node)).run t
        fun found v => found.isSome = true → track.Past stack u.rest.length v := by
    apply (hcontext.nested.operand rfl hlt hinner).step
    intro inner v hpast
    rw [run_lift]
    exact (hpast.mono (Nat.le_of_lt hlt)).store.some
  rw [Tries, operand]
  simp only [run_lift_bind, run_ite]
  apply h.skipTrivia.bind
  rintro _ t ⟨hinStep, hle⟩
  rw [arrives_position, arrives_rest]
  apply Arrives.ite
  · intro hdots
    obtain ⟨later, hrest⟩ := List.isPrefixOf_iff_prefix.mp hdots
    apply hinStep.operator hrest.symm (by simp [Scan.punctuation])
    exact fun v hinner hlt => hnested hinner (Nat.lt_of_lt_of_le hlt hle)
  intro _
  apply Arrives.ite
  · intro hunary
    obtain ⟨hinner, hlt⟩ := hinStep.unary hunary
    rw [arrives_skip]
    apply hinner.skipTrivia.bind
    rintro _ v ⟨hinner, hle'⟩
    exact hnested hinner (by omega)
  intro _
  apply (tries_primary (hcontext.mono hle) hinStep).step
  intro node v hpast
  have hlt := Nat.lt_of_lt_of_le hpast.length_lt hle
  exact tries_suffixes hcontext (hpast.mono hle) (Nat.lt_trans hlt hcontext.ample.lt_budget)

/-! ### Logical operators and conditionals -/

theorem exists_of_startsAnd {text : List Char} (h : startsAnd text = true) :
  ∃ later, text = '&' :: ['&'] ++ later
  := by
  rw [startsAnd.eq_def] at h
  split at h
  · next later => exact ⟨later, rfl⟩
  · cases h

theorem exists_of_orOperator? {text : List Char} {op : LogicalOp}
    (h : orOperator? text = some op) :
  ∃ c later, text = c :: [c] ++ later ∧ (c = '|' ∨ c = '?')
  := by
  rw [orOperator?.eq_def] at h
  split at h
  · next later => exact ⟨'|', later, rfl, .inl rfl⟩
  · next later => exact ⟨'?', later, rfl, .inr rfl⟩
  · cases h

theorem exists_of_startsConditional {text : List Char} (h : startsConditional text = true) :
  ∃ later, text = '?' :: [] ++ later
  := by
  rw [startsConditional, Bool.and_eq_true, Bool.and_eq_true, decide_eq_true_eq] at h
  exact List.head?_eq_some_iff.mp h.1.1

/-- The right operand of a logical operator is read, and the parse goes on with both operands. -/
theorem Tries.logical {right : Attempt Node} {op : LogicalOp} {left : Node}
    {chain : Node → Attempt Node} {P : State → Prop}
    (h : Tries right u (track.Past stack u.rest.length))
    (hnext : ∀ longer t, track.Past stack u.rest.length t → Tries (chain longer) t P) :
  Tries (do
      let right ← right
      let longer ← storeLogical op left right
      chain longer) u P
  := by
  apply h.step
  intro right t hpast
  rw [run_lift_bind, storeLogical]
  exact hpast.store.bind hnext

theorem tries_andChain (hcontext : context.Keeps track.dialect count) {budget : Nat} {left : Node}
    (h : track.Past stack count u) (hbudget : u.rest.length < budget) :
  Tries (andChain context budget left) u (track.Past stack count)
  := by
  induction budget generalizing u left with
  | zero => omega
  | succ budget ih =>
    obtain ⟨⟨prev, hinStep⟩, hlt⟩ := h
    rw [Tries, andChain]
    simp only [run_lift_bind, run_ite]
    apply hinStep.skipTrivia.bind
    rintro _ t ⟨hinStep, hle⟩
    have hpast : track.Past stack count t := ⟨⟨_, hinStep⟩, Nat.lt_of_le_of_lt hle hlt⟩
    rw [arrives_rest]
    apply Arrives.ite
    · intro hand
      obtain ⟨later, hrest⟩ := exists_of_startsAnd hand
      apply hinStep.operator hrest (by simp [Scan.punctuation])
      intro v hright hlt'
      have hcount : v.rest.length ≤ count := by omega
      apply (tries_operand (hcontext.mono hcount) hright).logical
      intro longer w hpast
      have hshort := hpast.length_lt
      exact ih (hpast.mono hcount) (by omega)
    · exact fun _ => .pure fun _ => hpast

theorem tries_conjunction (hcontext : context.Keeps track.dialect u.rest.length)
    (h : track.InStep .operator stack u) :
  Tries (conjunction context) u (track.Past stack u.rest.length)
  := by
  rw [conjunction]
  apply (tries_operand hcontext h).bind
  intro left t hpast
  exact tries_andChain hcontext hpast (Nat.lt_trans hpast.length_lt hcontext.ample.lt_budget)

theorem tries_orChain (hcontext : context.Keeps track.dialect count) {budget : Nat} {left : Node}
    (h : track.Past stack count u) (hbudget : u.rest.length < budget) :
  Tries (orChain context budget left) u (track.Past stack count)
  := by
  induction budget generalizing u left with
  | zero => omega
  | succ budget ih =>
    obtain ⟨⟨prev, hinStep⟩, hlt⟩ := h
    rw [Tries, orChain]
    simp only [run_lift_bind]
    apply hinStep.skipTrivia.bind
    rintro _ t ⟨hinStep, hle⟩
    have hpast : track.Past stack count t := ⟨⟨_, hinStep⟩, Nat.lt_of_le_of_lt hle hlt⟩
    rw [arrives_rest]
    cases hop : orOperator? t.rest with
    | none => exact .pure fun _ => hpast
    | some op =>
      obtain ⟨c, later, hrest, hc⟩ := exists_of_orOperator? hop
      simp only [run_lift_bind]
      apply hinStep.operator hrest (by obtain rfl | rfl := hc <;> simp [Scan.punctuation])
      intro v hright hlt'
      have hcount : v.rest.length ≤ count := by omega
      apply (tries_conjunction (hcontext.mono hcount) hright).logical
      intro longer w hpast
      have hshort := hpast.length_lt
      exact ih (hpast.mono hcount) (by omega)

theorem tries_disjunction (hcontext : context.Keeps track.dialect u.rest.length)
    (h : track.InStep .operator stack u) :
  Tries (disjunction context) u (track.Past stack u.rest.length)
  := by
  rw [disjunction]
  apply (tries_conjunction hcontext h).bind
  intro left t hpast
  exact tries_orChain hcontext hpast (Nat.lt_trans hpast.length_lt hcontext.ample.lt_budget)

theorem tries_expression (hcontext : context.Keeps track.dialect u.rest.length)
    (h : track.InStep .operator stack u) :
  Tries (expression context) u (track.Past stack u.rest.length)
  := by
  rw [Tries, expression]
  apply (tries_disjunction hcontext h).step
  rintro test t ⟨⟨prev, hinStep⟩, hlt⟩
  simp only [run_lift_bind, run_ite]
  apply hinStep.skipTrivia.bind
  rintro _ v ⟨hinStep, hle⟩
  rw [arrives_rest]
  apply Arrives.ite
  · intro hmark
    obtain ⟨later, hrest⟩ := exists_of_startsConditional hmark
    apply hinStep.operator hrest (by simp [Scan.punctuation])
    intro w hconsequent hlt'
    apply (hcontext.nested.expression rfl (by omega) hconsequent).step
    rintro consequent x ⟨⟨prev', hinStep⟩, hlt''⟩
    simp only [run_lift_bind, run_guard_bind]
    apply hinStep.skipTrivia.bind
    rintro _ y ⟨hinStep, hle'⟩
    rw [arrives_rest]
    apply Arrives.ite
    · intro hcolon
      obtain ⟨later, hrest⟩ : ∃ later, y.rest = ':' :: [] ++ later :=
        List.head?_eq_some_iff.mp hcolon
      apply hinStep.operator hrest (by simp [Scan.punctuation])
      intro z halternate hlt'''
      apply (hcontext.nested.expression rfl (by omega) halternate).step
      intro alternate z' hpast
      rw [run_lift]
      exact (hpast.mono (by omega)).store.some
    · exact fun _ => .none
  · exact fun _ => .pure fun _ => ⟨⟨_, hinStep⟩, Nat.lt_of_le_of_lt hle hlt⟩

/-! ### Regions -/

theorem tries_wholeExpression (hcontext : context.Keeps track.dialect u.rest.length)
    (h : track.InStep .operator [] u) :
  Tries (wholeExpression context track.stops) u fun t => Related track.base t track.finish
  := by
  rw [wholeExpression]
  apply (tries_expression hcontext h).bind
  rintro node t ⟨⟨prev, hinStep⟩, -⟩
  rw [Tries]
  simp only [run_lift_bind, run_guard_bind]
  apply hinStep.skipTrivia.bind
  rintro _ v ⟨hinStep, -⟩
  rw [arrives_rest]
  apply Arrives.ite
  · intro hstop
    rw [Option.any_eq_true] at hstop
    obtain ⟨c, hhead, hc⟩ := hstop
    exact .pure fun _ => hinStep.related_finish hhead (List.contains_iff_mem.mp hc)
  · exact fun _ => .none

/-- A region ends where the scan ends: if no expression extends to there, then the parse does from
the start of the region what the scan does. -/
theorem arrives_region (hcontext : context.Keeps track.dialect u.rest.length)
    (h : track.InStep .operator [] u) :
  Arrives (region context track.stops) u fun _ t => Related track.base t track.finish
  := by
  rw [region]
  apply h.skipTrivia.bind
  rintro _ t ⟨hinStep, hle⟩
  rw [arrives_get]
  apply Arrives.bind (tries_wholeExpression (hcontext.mono hle) hinStep)
  intro found v hfound
  cases found with
  | some node => exact .pure (hfound rfl)
  | none =>
    rw [arrives_set, discard_bind]
    apply (hinStep.code (hcontext.ample.mono hle) hcontext.dialect_eq).bind
    rintro _ w ⟨-, hfinish⟩
    rw [arrives_spanFrom]
    exact ⟨_, _, rfl, hfinish.push _⟩

/-! ### Constructs in one another -/

/-- In an ample context the constructs inside others keep in step. -/
theorem Context.Ample.keeps {count : Nat} (h : context.Ample count) :
  context.Keeps context.dialect count
  := by
  induction count generalizing context with
  | zero => exact ⟨rfl, h, ⟨nofun, nofun, nofun⟩⟩
  | succ count ih =>
    obtain ⟨inner, hinner, hdialect, hnested⟩ := h.exists_scans (Nat.lt_succ_self count)
    have hkeeps {t : State} (hlt : t.rest.length < count + 1) :
        inner.Keeps context.dialect t.rest.length :=
      hdialect ▸ (ih hinner).mono (Nat.le_of_lt_succ hlt)
    refine ⟨rfl, h, ?_⟩
    rw [hnested]
    exact {
      region := fun hsame hlt hinStep => arrives_region (hsame ▸ hkeeps hlt) hinStep
      expression := fun hsame hlt hinStep => tries_expression (hsame ▸ hkeeps hlt) hinStep
      operand := fun hsame hlt hinStep => tries_operand (hsame ▸ hkeeps hlt) hinStep }

end UtilityClasses.Scan
