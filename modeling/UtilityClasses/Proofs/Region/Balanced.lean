import UtilityClasses.Proofs.Cursor.Budget

/-!
# Well-bracketed code

Code is well-bracketed if every closing bracket that the scan meets closes the innermost of the
open ones. What is inside strings, comments, regular expressions and elements does not count, and
the code in the holes of templates is well-bracketed for itself.
-/

namespace UtilityClasses.Scan

open Cursor (AreStops)

variable {dialect : Dialect} {context : Context} {stops stack inner outer later : List Char}
  {prev : Previous} {s t u e : State} {c d : Char}

/-- The context of a scan that starts where another stands. -/
abbrev contextAt (dialect : Dialect) (s : State) : Context :=
  Context.ofLength dialect s.rest.length

theorem ample_contextAt (dialect : Dialect) (h : t.rest.length ≤ s.rest.length) :
  (contextAt dialect s).Ample t.rest.length
  := (Context.ample_ofLength dialect _).mono h

/-! ### Lexemes -/

/-- Blanks and comments are passed, and a character is ahead. -/
structure Next (s : State) (c : Char) (t : State) : Prop where
  passed : Runs skipTrivia s () t
  head : t.rest.head? = some c

theorem triviaAfter_drop {skip count : Nat} {text : List Char}
    (h : triviaAfter skip text = .closed count) :
  trivia (text.drop count) = .closed 0
  := by
  induction text generalizing skip count with
  | nil => rw [List.drop_nil, trivia, triviaAfter]
  | cons c text ih =>
    have hsucc {less : Nat} (h : (triviaAfter less text).succ = .closed count) :
        trivia ((c :: text).drop count) = .closed 0 := by
      cases hless : triviaAfter less text with
      | closed length =>
        rw [hless] at h
        obtain rfl : length + 1 = count := by simpa [Trivia.succ] using h
        rw [List.drop_succ_cons]
        exact ih hless
      | unclosed start => simp [hless, Trivia.succ] at h
    cases skip with
    | succ skip => exact hsucc h
    | zero =>
      rw [triviaAfter] at h
      split at h
      · exact hsucc h
      · next hblank =>
        split at h
        · next habsent =>
          obtain rfl : count = 0 := by simpa using h.symm
          rw [List.drop_zero, trivia, triviaAfter, if_neg hblank, habsent]
        · exact hsucc h
        · cases h

/-- Behind blanks and comments there are no more of them. -/
theorem runs_skipTrivia_again (h : Runs skipTrivia s () t) :
  Runs skipTrivia t () t
  := by
  obtain ⟨count, htrivia, rfl⟩ := runs_skipTrivia.mp h
  rw [runs_skipTrivia]
  exact ⟨0, triviaAfter_drop htrivia, (State.after_zero _).symm⟩

theorem Next.again (h : Next s c t) :
  Next t c t
  := ⟨runs_skipTrivia_again h.passed, h.head⟩

theorem Next.exists_rest_eq (h : Next s c t) :
  ∃ later, t.rest = c :: later
  := List.head?_eq_some_iff.mp h.head

theorem Next.length_le (h : Next s c t) :
  t.rest.length ≤ s.rest.length
  := by
  obtain ⟨count, -, rfl⟩ := runs_skipTrivia.mp h.passed
  rw [State.after_rest, List.length_drop]
  omega

/-! ### Brackets -/

/-- The bracket that closes another one. -/
def closing? : Char → Option Char
  | '(' => some ')'
  | '[' => some ']'
  | '\x7b' => some '\x7d'
  | _ => none

/-- The brackets that close others. -/
def IsClosing (c : Char) : Prop :=
  c = ')' ∨ c = ']' ∨ c = '\x7d'

instance : Decidable (IsClosing c) :=
  inferInstanceAs (Decidable (_ ∨ _ ∨ _))

/-- The code of a hole starts at `m`, in a template of which the text goes on at `s`. -/
inductive Hole (dialect : Dialect) : State → State → Prop
  | here {s m : State} (hhole : (s.rest.drop (templateText s.rest)).head? = some '$')
      (hm : m = s.after (templateText s.rest + 2)) : Hole dialect s m
  | later {s m u m' : State} (hhole : (s.rest.drop (templateText s.rest)).head? = some '$')
      (hm : m = s.after (templateText s.rest + 2))
      (hcode : Runs (code (contextAt dialect m) ['\x7d']) m true u)
      (hlater : Hole dialect (u.after 1) m') : Hole dialect s m'

/-- The scan of code comes from `s` to a stop outside all brackets, at `e`, and on its way every
closing bracket closes the innermost open one. The brackets that are to close those open at `s` are
`stack`, the innermost first. -/
inductive Balanced (dialect : Dialect) :
    List Char → Previous → List Char → State → State → Prop
  | stop {stops : List Char} {prev : Previous} {s t : State} {c : Char} (h : Next s c t)
      (hc : c ∈ stops) : Balanced dialect stops prev [] s t
  | opening {stops stack : List Char} {prev : Previous} {s t e : State} {c d : Char}
      (h : Next s c t) (hd : closing? c = some d) (hgo : stack = [] → c ∉ stops)
      (hnext : Balanced dialect stops .operator (d :: stack) (t.after 1) e) :
      Balanced dialect stops prev stack s e
  | closing {stops stack : List Char} {prev : Previous} {s t e : State} {d : Char}
      (h : Next s d t) (hd : IsClosing d)
      (hnext : Balanced dialect stops (if d = '\x7d' then .operator else .operand) stack
        (t.after 1) e) :
      Balanced dialect stops prev (d :: stack) s e
  | template {stops stack : List Char} {prev : Previous} {s t u e : State}
      (h : Next s '\x60' t) (hgo : stack = [] → '\x60' ∉ stops)
      (hskip : Runs (skipTemplate (contextAt dialect t)) t () u) (ends : State → State)
      (hholes : ∀ m, Hole dialect (t.after 1) m →
        Balanced dialect ['\x7d'] .operator [] m (ends m))
      (hnext : Balanced dialect stops .operand stack u e) :
      Balanced dialect stops prev stack s e
  | other {stops stack : List Char} {prev prev' : Previous} {s t u e : State} {c : Char}
      (h : Next s c t) (hopening : closing? c = none) (hclosing : ¬ IsClosing c)
      (htemplate : c ≠ '\x60') (hgo : stack = [] → c ∉ stops)
      (hlexeme : Runs (lexeme (contextAt dialect t) ⟨0, prev⟩ c) t ⟨0, prev'⟩ u)
      (hnext : Balanced dialect stops prev' stack u e) :
      Balanced dialect stops prev stack s e

/-! ### The scan of well-bracketed code -/

/-- How deep a lexeme lies does not matter. -/
theorem lexeme_eq_map (hopening : closing? c = none) (hclosing : ¬ IsClosing c) (depth : Nat) :
  lexeme context ⟨depth, prev⟩ c =
    (fun place => { place with depth := depth }) <$> lexeme context ⟨0, prev⟩ c
  := by
  have hoperator : operator ⟨depth, prev⟩ =
      (fun place : Place => { place with depth := depth }) <$> operator ⟨0, prev⟩ := by
    simp [operator]
  have hslash : slash ⟨depth, prev⟩ =
      (fun place : Place => { place with depth := depth }) <$> slash ⟨0, prev⟩ := by
    simp only [slash, hoperator]
    split
    · rw [map_bind]
      congr! 2 with found
      cases found <;> simp
    · rfl
  have hangle : angle context ⟨depth, prev⟩ =
      (fun place : Place => { place with depth := depth }) <$> angle context ⟨0, prev⟩ := by
    simp only [angle, hoperator]
    split
    · rw [map_bind]
      congr! 2 with found
      cases found <;> simp
    · rfl
  have hopen : ¬ (decide (c = '(') || decide (c = '[') || decide (c = '\x7b')) = true := by
    intro h
    simp only [Bool.or_eq_true, decide_eq_true_eq] at h
    obtain (rfl | rfl) | rfl := h <;> simp [closing?] at hopening
  have hclose : ¬ (decide (c = ')') || decide (c = ']') || decide (c = '\x7d')) = true := by
    simpa [IsClosing, or_assoc] using hclosing
  simp only [lexeme, hslash, hangle, hoperator, if_neg hopen, if_neg hclose]
  repeat' split
  all_goals simp

theorem lexeme_opening (h : closing? c = some d) (place : Place) :
  lexeme context place c = (do skip 1; return ⟨place.depth + 1, .operator⟩)
  := by
  unfold closing? at h
  split at h <;> simp_all [lexeme]

theorem lexeme_closing (h : IsClosing d) (place : Place) :
  lexeme context place d =
    (do skip 1; return ⟨place.depth - 1, if d = '\x7d' then .operator else .operand⟩)
  := by
  obtain rfl | rfl | rfl := h <;> rfl

theorem lexeme_template (place : Place) :
  lexeme context place '\x60' =
    (do skipTemplate context; return { place with previous := .operand })
  := rfl

/-- A lexeme is passed, and the scan of code goes on. -/
theorem runs_codeFrom_of_lexeme (hstops : AreStops stops) (h : Next s c t) {place place' : Place}
    (hgo : place.depth = 0 → c ∉ stops)
    (hlexeme : Runs (lexeme (contextAt dialect t) place c) t place' u)
    (hnext : ∀ budget, u.rest.length < budget →
      Runs (codeFrom (contextAt dialect u) stops budget place') u true e)
    {budget : Nat} (hbudget : s.rest.length < budget) :
  Runs (codeFrom (contextAt dialect s) stops budget place) s true e
  := by
  obtain ⟨more, rfl⟩ := Nat.exists_eq_succ_of_ne_zero (Nat.ne_zero_of_lt hbudget)
  obtain ⟨later, hrest⟩ := h.exists_rest_eq
  have hle := h.length_le
  have hlt := Cursor.length_lt_of_lexeme (ample_contextAt dialect (Nat.le_refl _)) hrest hlexeme
  have hstop : (decide (place.depth = 0) && stops.contains c) = false := by
    rw [Bool.and_eq_false_iff, decide_eq_false_iff_not, List.contains_eq_mem,
      decide_eq_false_iff_not]
    exact Decidable.not_or_of_imp hgo
  rw [Nat.succ_eq_add_one, codeFrom, runs_bind]
  refine ⟨(), t, h.passed, ?_⟩
  simp only [runs_bind, runs_rest, and_assoc, exists_and_left, exists_eq_left, hrest, hstop]
  rw [if_neg Bool.false_ne_true, runs_bind]
  refine ⟨place', u, ?_, ?_⟩
  · exact (Cursor.lexeme_eq (ample_contextAt dialect hle) (ample_contextAt dialect (Nat.le_refl _))
      rfl hrest place).trans hlexeme
  · have hmore : u.rest.length < more := by omega
    have hample : (contextAt dialect s).Ample u.rest.length := ample_contextAt dialect (by omega)
    exact (Cursor.codeFrom_eq hample (ample_contextAt dialect (Nat.le_refl _)) rfl hstops hmore
      (Nat.lt_succ_self _) place').trans (hnext _ (Nat.lt_succ_self _))

/-- The scan of well-bracketed code comes to the stop. -/
theorem Balanced.runs (h : Balanced dialect stops prev stack s e) (hstops : AreStops stops)
    {budget : Nat} (hbudget : s.rest.length < budget) :
  Runs (codeFrom (contextAt dialect s) stops budget ⟨stack.length, prev⟩) s true e
  := by
  induction h generalizing budget with
  | @stop stops prev s t c h hc =>
    obtain ⟨more, rfl⟩ := Nat.exists_eq_succ_of_ne_zero (Nat.ne_zero_of_lt hbudget)
    obtain ⟨later, hrest⟩ := h.exists_rest_eq
    rw [Nat.succ_eq_add_one, codeFrom, runs_bind]
    refine ⟨(), t, h.passed, ?_⟩
    simp only [runs_bind, runs_rest, and_assoc, exists_and_left, exists_eq_left, hrest]
    rw [if_pos (by simp [hc])]
    rfl
  | @opening stops stack prev s t e c d h hd hgo hnext ih =>
    apply runs_codeFrom_of_lexeme hstops h (by simpa using hgo) _ (fun _ => ih hstops) hbudget
    rw [lexeme_opening hd]
    rfl
  | @closing stops stack prev s t e d h hd hnext ih =>
    apply runs_codeFrom_of_lexeme hstops h (by simp) _ (fun _ => ih hstops) hbudget
    rw [lexeme_closing hd]
    rfl
  | @template stops stack prev s t u e h hgo hskip ends hholes hnext ihholes ih =>
    apply runs_codeFrom_of_lexeme hstops h (by simpa using hgo) _ (fun _ => ih hstops) hbudget
    rw [lexeme_template, runs_bind]
    exact ⟨(), u, hskip, rfl⟩
  | @other stops stack prev prev' s t u e c h hopening hclosing htemplate hgo hlexeme hnext ih =>
    apply runs_codeFrom_of_lexeme hstops h (by simpa using hgo) _ (fun _ => ih hstops) hbudget
    rw [lexeme_eq_map hopening hclosing, runs_map]
    exact ⟨⟨0, prev'⟩, hlexeme, rfl⟩

/-- The scan moves forward. -/
theorem Balanced.length_le (h : Balanced dialect stops prev stack s e) :
  e.rest.length ≤ s.rest.length
  := by
  have hafter {s t : State} {c : Char} (h : Next s c t) :
      (t.after 1).rest.length ≤ s.rest.length := by
    have hle := h.length_le
    rw [State.after_rest, List.length_drop]
    omega
  have hlexeme {s t u : State} {c : Char} {place place' : Place} (h : Next s c t)
      (hlexeme : Runs (lexeme (contextAt dialect t) place c) t place' u) :
      u.rest.length ≤ s.rest.length := by
    obtain ⟨later, hrest⟩ := h.exists_rest_eq
    have hlt := Cursor.length_lt_of_lexeme (ample_contextAt dialect (Nat.le_refl _)) hrest hlexeme
    exact Nat.le_trans (Nat.le_of_lt hlt) h.length_le
  induction h with
  | stop h => exact h.length_le
  | opening h _ _ _ ih | closing h _ _ ih => exact Nat.le_trans ih (hafter h)
  | @template stops stack prev s t u e h hgo hskip ends hholes hnext ihholes ih =>
    apply Nat.le_trans ih
    apply @hlexeme _ _ _ _ ⟨0, prev⟩ ⟨0, .operand⟩ h
    rw [lexeme_template, runs_bind]
    exact ⟨(), u, hskip, rfl⟩
  | other h _ _ _ _ hruns _ ih => exact Nat.le_trans ih (hlexeme h hruns)

/-- The scan ends in front of a stop. -/
theorem Balanced.exists_head (h : Balanced dialect stops prev stack s e) :
  ∃ c ∈ stops, e.rest.head? = some c
  := by
  induction h with
  | stop h hc => exact ⟨_, hc, h.head⟩
  | opening _ _ _ _ ih | closing _ _ _ ih | template _ _ _ _ _ _ _ ih | other _ _ _ _ _ _ _ ih =>
    exact ih

/-- Well-bracketed code inside other constructs is passed by a context that is ample for it. -/
theorem Balanced.runs_nested (h : Balanced context.dialect stops .operator [] s e)
    (hstops : AreStops stops) {count : Nat} (hcontext : context.Ample count)
    (hlt : s.rest.length < count) :
  Runs (context.nested.code stops) s true e
  := by
  obtain ⟨inside, hinside, hdialect, hnested⟩ := hcontext.exists_scans hlt
  have hcode : Runs (code (contextAt context.dialect s) stops) s true e :=
    h.runs hstops (Nat.lt_succ_self _)
  rw [hnested]
  exact (Cursor.code_eq hinside (ample_contextAt _ (Nat.le_refl _)) hdialect hstops).trans hcode

/-! ### Templates -/

/-- The text of a template is passed from `s` to its end, at `e`, and the code in its holes is
well-bracketed. -/
inductive Filled (dialect : Dialect) (e : State) : State → Prop
  | done {s : State} (hquote : (s.after (templateText s.rest)).rest.head? = some '\x60')
      (hend : (s.after (templateText s.rest)).after 1 = e) : Filled dialect e s
  | hole {s m : State} {later : List Char}
      (hhole : (s.after (templateText s.rest)).rest = '$' :: '\x7b' :: later)
      (hcode : Balanced dialect ['\x7d'] .operator []
        ((s.after (templateText s.rest)).after 2) m)
      (hnext : Filled dialect e (m.after 1)) : Filled dialect e s

/-- The code of a hole is shorter than the template. -/
theorem length_hole_lt (hne : (s.after (templateText s.rest)).rest ≠ []) :
  ((s.after (templateText s.rest)).after 2).rest.length < s.rest.length
  := Nat.lt_of_lt_of_le (length_after_lt hne Nat.two_pos) (length_after_le s _)

/-- A template that is passed ends behind its text, or there is a hole behind the text, with code
that is passed up to the brace that closes it, and the template goes on from there. -/
theorem runs_templateTail_succ {start budget : Nat}
    (h : Runs (templateTail context start (budget + 1)) s () e) :
  (s.after (templateText s.rest)).rest.head? = some '\x60' ∧
      (s.after (templateText s.rest)).after 1 = e ∨
    ∃ later m, (s.after (templateText s.rest)).rest = '$' :: '\x7b' :: later ∧
      Runs (context.nested.code ['\x7d']) ((s.after (templateText s.rest)).after 2) true m ∧
      Runs (templateTail context start budget) (m.after 1) () e
  := by
  have htext := drop_templateText s.rest
  have hitem : Runs (Cursor.templateItem context start >>=
      Cursor.Round.goOn fun _ => templateTail context start budget)
      (s.after (templateText s.rest)) () e :=
    (Cursor.templateTail_succ budget start s).symm.trans h
  rw [← State.after_rest] at htext
  rw [Cursor.templateItem, bind_assoc, runs_bind] at hitem
  simp only [runs_rest, and_assoc, exists_and_left, exists_eq_left] at hitem
  obtain hnil | hquote | ⟨later, hhole⟩ := htext
  · rw [hnil] at hitem
    simp [Cursor.Round.goOn] at hitem
  · rw [if_pos hquote, bind_assoc] at hitem
    simp only [Cursor.Round.goOn, pure_bind, runs_bind, runs_skip, runs_pure, exists_eq_left,
      exists_const, true_and] at hitem
    exact .inl ⟨hquote, hitem.symm⟩
  · rw [hhole, List.head?_cons, if_neg (by decide), List.isEmpty_cons,
      if_neg Bool.false_ne_true] at hitem
    simp only [bind_assoc, runs_bind, runs_skip, exists_eq_left, exists_const] at hitem
    obtain ⟨found, m, hfound, hnext⟩ := hitem
    cases found with
    | false => simp at hnext
    | true =>
      rw [if_pos rfl] at hnext
      simp only [runs_bind, runs_skip, runs_pure, and_assoc, exists_and_left, exists_eq_left,
        exists_const, Cursor.Round.goOn] at hnext
      exact .inr ⟨later, m, hhole, hfound, hnext⟩

/-- A template that is passed, and of which all holes are well-bracketed. -/
theorem filled_of_runs (hcontext : context.Ample s.rest.length) {start budget : Nat}
    (h : Runs (templateTail context start budget) s () e) {ends : State → State}
    (hholes : ∀ m, Hole context.dialect s m →
      Balanced context.dialect ['\x7d'] .operator [] m (ends m)) :
  Filled context.dialect e s
  := by
  induction budget generalizing s with
  | zero => exact absurd h not_runs_exhaust
  | succ budget ih =>
    obtain ⟨hquote, hend⟩ | ⟨later, m, hhole, hfound, hnext⟩ := runs_templateTail_succ h
    · exact .done hquote hend
    · have hhead : (s.after (templateText s.rest)).rest.head? = some '$' := by
        rw [hhole, List.head?_cons]
      have hplace : (s.after (templateText s.rest)).after 2 = s.after (templateText s.rest + 2) :=
        s.after_after _ 2
      have hbalanced := hholes _ (.here hhead hplace)
      have hlt := length_hole_lt (Cursor.ne_nil_of_head? hhead)
      have hstops : AreStops ['\x7d'] := by simp [AreStops]
      -- There is only one place where the code of the hole can end.
      have hcode := hbalanced.runs_nested hstops hcontext hlt
      obtain ⟨-, rfl⟩ := Prod.mk.inj (Except.ok.inj (hcode.symm.trans hfound))
      have hle := Nat.le_trans (length_after_le _ 1) hbalanced.length_le
      apply Filled.hole hhole hbalanced
      apply ih (hcontext.mono (Nat.le_trans hle (Nat.le_of_lt hlt))) hnext
      intro m' hm'
      apply hholes
      exact .later hhead hplace (hbalanced.runs hstops (Nat.lt_succ_self _)) hm'

/-! ### The code inside brackets -/

/-- The characters at which code inside brackets ends, which are closed by `d`. -/
structure Closes (stops : List Char) (d : Char) : Prop where
  closing : IsClosing d
  mem : d ∈ stops
  cases {c : Char} (h : c ∈ stops) : c = d ∨ c = ','

theorem Closes.not_mem (h : Closes stops d) (hclosing : ¬ IsClosing c) (hcomma : c ≠ ',') :
  c ∉ stops
  := by
  intro hmem
  obtain rfl | rfl := h.cases hmem
  · exact hclosing h.closing
  · exact hcomma rfl

theorem closes_brace :
  Closes ['\x7d'] '\x7d'
  := ⟨by simp [IsClosing], by simp, by simp⟩

theorem closes_bracket :
  Closes [']'] ']'
  := ⟨by simp [IsClosing], by simp, by simp⟩

/-- The items of a list end at commas. -/
theorem closes_list (hd : d ∈ [')', ']']) :
  Closes [',', d] d
  where
  closing := by
    simp only [List.mem_cons, List.not_mem_nil, or_false] at hd
    obtain rfl | rfl := hd <;> simp [IsClosing]
  mem := by simp
  cases h := by simpa [or_comm] using h

theorem not_isClosing_of_closing? (h : closing? c = some d) :
  ¬ IsClosing c ∧ c ≠ ','
  := by
  unfold closing? at h
  split at h <;> simp_all [IsClosing]

/-- Inside brackets the scan comes to the first place at which the code there may end, and it is
well-bracketed on the way to it and from there. -/
theorem Balanced.split (h : Balanced dialect stops prev stack s e)
    (hstack : stack = inner ++ d :: outer) {ends : List Char} (hends : Closes ends d) :
  ∃ m prev' c, Balanced dialect ends prev inner s m ∧
    Balanced dialect stops prev' (d :: outer) m e ∧ m.rest.head? = some c ∧ c ∈ ends
  := by
  induction h generalizing inner with
  | stop h hc => simp at hstack
  | @opening stops stack prev s t e c d' h hd hgo hnext ih =>
    obtain ⟨hclosing, hcomma⟩ := not_isClosing_of_closing? hd
    subst hstack
    obtain ⟨m, prev', b, hinner, houter, hhead, hb⟩ :=
      ih (show d' :: _ = (d' :: inner) ++ d :: outer from rfl)
    refine ⟨m, prev', b, .opening h hd (fun _ => ?_) hinner, houter, hhead, hb⟩
    exact hends.not_mem hclosing hcomma
  | @closing stops stack prev s t e d' h hd hnext ih =>
    cases inner with
    | nil =>
      obtain ⟨rfl, rfl⟩ := List.cons.inj hstack
      exact ⟨t, prev, d', .stop h hends.mem, .closing h.again hd hnext, h.head, hends.mem⟩
    | cons x inner =>
      obtain ⟨rfl, rfl⟩ := List.cons.inj hstack
      obtain ⟨m, prev', b, hinner, houter, hhead, hb⟩ := ih rfl
      exact ⟨m, prev', b, .closing h hd hinner, houter, hhead, hb⟩
  | @template stops stack prev s t u e h hgo hskip stop hholes hnext ihholes ih =>
    obtain ⟨m, prev', b, hinner, houter, hhead, hb⟩ := ih hstack
    refine ⟨m, prev', b, .template h (fun _ => ?_) hskip stop hholes hinner, houter, hhead, hb⟩
    exact hends.not_mem (by simp [IsClosing]) (by simp)
  | @other stops stack prev prev' s t u e c h hopening hclosing htemplate hgo hlexeme hnext ih =>
    by_cases hstop : inner = [] ∧ c ∈ ends
    · obtain ⟨rfl, hc⟩ := hstop
      refine ⟨t, prev, c, .stop h hc, ?_, h.head, hc⟩
      rw [hstack] at hgo hnext
      exact .other h.again hopening hclosing htemplate hgo hlexeme hnext
    · obtain ⟨m, prev', b, hinner, houter, hhead, hb⟩ := ih hstack
      refine ⟨m, prev', b, .other h hopening hclosing htemplate ?_ hlexeme hinner, houter, hhead, hb⟩
      exact fun hnil hc => hstop ⟨hnil, hc⟩

end UtilityClasses.Scan
