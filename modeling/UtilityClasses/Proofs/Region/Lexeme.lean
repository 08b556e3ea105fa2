import UtilityClasses.Proofs.Region.Balanced
import UtilityClasses.Proofs.Region.Renumbered
import UtilityClasses.Proofs.Scan.Arrival
import UtilityClasses.Proofs.Term.Lexeme

/-!
# In step with the scan of code

While an expression is parsed, the parse always stands where the scan of the same code stands
between two lexemes. This file says what becomes of that when the parse passes over one lexeme.
-/

namespace UtilityClasses.Scan

open Cursor (AreStops)

variable {dialect : Dialect} {context : Context} {stops stack outer : List Char}
  {prev : Previous} {place : Place} {s t u v e : State} {c d : Char}

/-! ### Lexemes by their first characters -/

/-- The characters that are lexemes by themselves, apart from brackets. -/
def punctuation : List Char :=
  ['.', '?', '!', '&', '|', '-', '+', '~', ':', '#', ',']

theorem lexeme_punctuation (hc : c ∈ punctuation) :
  lexeme context place c = operator place
  := by
  simp only [punctuation, List.mem_cons, List.not_mem_nil, or_false] at hc
  obtain rfl | rfl | rfl | rfl | rfl | rfl | rfl | rfl | rfl | rfl | rfl := hc <;> rfl

theorem lexeme_quote (hc : c = '"' ∨ c = '\'') :
  lexeme context place c = (do
    discard (stringLiteral c)
    return { place with previous := .operand })
  := by
  obtain rfl | rfl := hc <;> rfl

theorem lexeme_of_isNameChar (hc : isNameChar c = true) :
  lexeme context place c =
    if isNameStart c then do
      let word := String.ofList (← takeWhile isNameChar)
      return { place with
        previous := if operatorWords.contains word then .operator else .operand }
    else do
      discard (takeWhile isNumberChar)
      return { place with previous := .operand }
  := by
  have hne {d : Char} (hd : isNameChar d = false) : c ≠ d := ne_of_isNameChar hc hd
  simp only [lexeme, hne (d := '"') (by decide), hne (d := '\'') (by decide),
    hne (d := '\x60') (by decide), hne (d := '/') (by decide), hne (d := '<') (by decide),
    hne (d := '(') (by decide), hne (d := '[') (by decide), hne (d := '\x7b') (by decide),
    hne (d := ')') (by decide), hne (d := ']') (by decide), hne (d := '\x7d') (by decide),
    decide_false, Bool.or_self, Bool.false_eq_true, if_false]
  split
  · rfl
  · next hstart =>
    have hdigit : c.isDigit = true := by simpa [isNameChar, hstart] using hc
    rw [if_pos hdigit]

/-- Neither blanks nor comments start with the character. -/
def IsSolid (c : Char) : Prop :=
  isSpacing c = false ∧ c ≠ '/'

instance : Decidable (IsSolid c) :=
  inferInstanceAs (Decidable (_ ∧ _))

theorem isSolid_of_isNameChar (hc : isNameChar c = true) :
  IsSolid c
  := by
  have hne {d : Char} (hd : isNameChar d = false) : c ≠ d := ne_of_isNameChar hc hd
  refine ⟨?_, hne (by decide)⟩
  simp [isSpacing, hne (d := ' ') (by decide), hne (d := '\t') (by decide),
    hne (d := '\n') (by decide), hne (d := '\r') (by decide), hne (d := '\x0c') (by decide)]

theorem Next.of_isSolid (hhead : s.rest.head? = some c) (hc : IsSolid c) :
  Next s c s
  := by
  refine ⟨skipTrivia_of_settled ?_, hhead⟩
  intro d hd
  obtain rfl := Option.some.inj (hhead.symm.trans hd)
  exact hc

theorem Next.unique (h : Next s c t) (h' : Next s d u) :
  c = d ∧ t = u
  := by
  obtain ⟨-, rfl⟩ := Prod.mk.inj (Except.ok.inj (h.passed.symm.trans h'.passed))
  exact ⟨Option.some.inj (h.head.symm.trans h'.head), rfl⟩

theorem isSolid_of_mem_stops (hstops : AreStops stops) (hc : c ∈ stops) :
  IsSolid c
  := by
  have hmem := hstops c hc
  simp only [List.mem_cons, List.not_mem_nil, or_false] at hmem
  obtain rfl | rfl | rfl | rfl := hmem <;> decide

theorem not_mem_stops (hstops : AreStops stops) (hclosing : ¬ IsClosing c) (hcomma : c ≠ ',') :
  c ∉ stops
  := by
  intro hc
  have hmem := hstops c hc
  simp only [List.mem_cons, List.not_mem_nil, or_false] at hmem
  obtain rfl | hmem := hmem
  · exact hcomma rfl
  · exact hclosing hmem

theorem length_takeWhile_pos {kind : Char → Bool} {text : List Char}
    (hhead : text.head? = some c) (hc : kind c = true) :
  0 < (text.takeWhile kind).length
  := by
  obtain ⟨later, rfl⟩ := List.head?_eq_some_iff.mp hhead
  rw [List.takeWhile_cons_of_pos hc]
  exact Nat.succ_pos _

/-- A run of one kind starts with a run of a narrower kind. -/
theorem length_takeWhile_of_imp {kind narrow : Char → Bool}
    (himp : ∀ d, narrow d = true → kind d = true) (text : List Char) :
  (text.takeWhile kind).length =
    (text.takeWhile narrow).length +
      ((text.drop (text.takeWhile narrow).length).takeWhile kind).length
  := by
  induction text with
  | nil => rfl
  | cons d text ih =>
    by_cases hd : narrow d = true
    · rw [List.takeWhile_cons_of_pos hd, List.takeWhile_cons_of_pos (himp d hd), List.length_cons,
        List.length_cons, List.drop_succ_cons, ih, Nat.add_right_comm]
    · rw [List.takeWhile_cons_of_neg hd, List.length_nil, List.drop_zero, Nat.zero_add]

/-! ### Well-bracketed code from a lexeme on -/

section Balanced

variable (h : Balanced dialect stops prev stack s e)
include h

/-- Blanks and comments can be passed. -/
theorem Balanced.exists_next :
  ∃ c t, Next s c t ∧ Balanced dialect stops prev stack t e
  := by
  cases h with
  | stop h hc => exact ⟨_, _, h, .stop h.again hc⟩
  | opening h hd hgo hnext => exact ⟨_, _, h, .opening h.again hd hgo hnext⟩
  | closing h hd hnext => exact ⟨_, _, h, .closing h.again hd hnext⟩
  | template h hgo hskip ends hholes hnext =>
    exact ⟨_, _, h, .template h.again hgo hskip ends hholes hnext⟩
  | other h hopening hclosing htemplate hgo hlexeme hnext =>
    exact ⟨_, _, h, .other h.again hopening hclosing htemplate hgo hlexeme hnext⟩

variable (hnext : Next s c s)
include hnext

theorem Balanced.of_stop (hstack : stack = []) (hc : c ∈ stops) :
  s = e
  := by
  cases h with
  | stop hat => exact (hnext.unique hat).2
  | opening hat _ hgo | template hat hgo | other hat _ _ _ hgo =>
    obtain ⟨rfl, rfl⟩ := hnext.unique hat
    exact absurd hc (hgo hstack)
  | closing => simp at hstack

theorem Balanced.of_opening (hgo : c ∉ stops) (hd : closing? c = some d) :
  Balanced dialect stops .operator (d :: stack) (s.after 1) e
  := by
  cases h with
  | opening hat hd' _ hmore =>
    obtain ⟨rfl, rfl⟩ := hnext.unique hat
    obtain rfl := Option.some.inj (hd.symm.trans hd')
    exact hmore
  | stop hat | closing hat | template hat | other hat =>
    obtain ⟨rfl, rfl⟩ := hnext.unique hat
    simp_all [closing?, not_isClosing_of_closing? hd]

theorem Balanced.of_closing (hstack : stack = c :: outer) (hc : IsClosing c) :
  ∃ prev', Balanced dialect stops prev' outer (s.after 1) e
  := by
  cases h with
  | closing hat _ hmore =>
    obtain ⟨rfl, rfl⟩ := hnext.unique hat
    obtain ⟨-, rfl⟩ := List.cons.inj hstack
    exact ⟨_, hmore⟩
  | opening hat hd =>
    obtain ⟨rfl, rfl⟩ := hnext.unique hat
    exact absurd hc (not_isClosing_of_closing? hd).1
  | stop hat | template hat | other hat =>
    obtain ⟨rfl, rfl⟩ := hnext.unique hat
    simp_all [IsClosing]

theorem Balanced.of_template (hc : c = '\x60') (hgo : c ∉ stops) :
  ∃ u, ∃ ends : State → State, Runs (skipTemplate (contextAt dialect s)) s () u ∧
    (∀ m, Hole dialect (s.after 1) m → Balanced dialect ['\x7d'] .operator [] m (ends m)) ∧
    Balanced dialect stops .operand stack u e
  := by
  cases h with
  | template hat _ hskip ends hholes hmore =>
    obtain ⟨-, rfl⟩ := hnext.unique hat
    exact ⟨_, ends, hskip, hholes, hmore⟩
  | stop hat | opening hat | closing hat | other hat =>
    obtain ⟨rfl, rfl⟩ := hnext.unique hat
    simp_all [closing?, IsClosing]

theorem Balanced.of_other (hgo : stack = [] → c ∉ stops) (hopening : closing? c = none)
    (hclosing : ¬ IsClosing c) (htemplate : c ≠ '\x60') :
  ∃ prev' u, Runs (lexeme (contextAt dialect s) ⟨0, prev⟩ c) s ⟨0, prev'⟩ u ∧
    Balanced dialect stops prev' stack u e
  := by
  cases h with
  | other hat _ _ _ _ hlexeme hmore =>
    obtain ⟨rfl, rfl⟩ := hnext.unique hat
    exact ⟨_, _, hlexeme, hmore⟩
  | stop hat | opening hat | closing hat | template hat =>
    obtain ⟨rfl, rfl⟩ := hnext.unique hat
    simp_all

end Balanced

/-! ### In step -/

/-- What the scan of code and the parse of the same code have in common: what had been found when
they started, and where the scan ends. -/
structure Track where
  base : State
  dialect : Dialect
  stops : List Char
  areStops : AreStops stops
  finish : State

namespace Track

variable {track : Track}

/-- The parse stands at `u`, and the scan stands at the same place, between two lexemes of
well-bracketed code. -/
def InStep (track : Track) (prev : Previous) (stack : List Char) (u : State) : Prop :=
  ∃ v, Related track.base u v ∧
    Balanced track.dialect track.stops prev stack v track.finish

/-- The parse is in step, whatever the lexeme before is, and less than `count` is left. -/
structure Past (track : Track) (stack : List Char) (count : Nat) (u : State) : Prop where
  inStep : ∃ prev, track.InStep prev stack u
  length_lt : u.rest.length < count

theorem Past.mono {count count' : Nat} (h : track.Past stack count u) (hle : count ≤ count') :
  track.Past stack count' u
  := ⟨h.inStep, Nat.lt_of_lt_of_le h.length_lt hle⟩

/-- The parse starts where the scan starts. -/
theorem inStep_base (h : Balanced track.dialect track.stops prev stack track.base track.finish) :
  track.InStep prev stack track.base
  := ⟨track.base, .refl _, h⟩

section InStep

variable (h : track.InStep prev stack u)
include h

/-- What is stored does not matter. -/
theorem InStep.push (expr : Expr) :
  track.InStep prev stack { u with arena := u.arena.push expr }
  := by
  obtain ⟨v, hrelated, hbalanced⟩ := h
  exact ⟨v, hrelated.push expr, hbalanced⟩

theorem InStep.skipTrivia :
  Arrives skipTrivia u fun _ t =>
    track.InStep prev stack t ∧ t.rest.length ≤ u.rest.length
  := by
  obtain ⟨v, hrelated, hbalanced⟩ := h
  obtain ⟨c, w, hnext, hbalanced⟩ := hbalanced.exists_next
  obtain ⟨count, htrivia, rfl⟩ := runs_skipTrivia.mp hnext.passed
  rw [← hrelated.rest_eq] at htrivia
  refine ⟨(), u.after count, runs_skipTrivia.mpr ⟨count, htrivia, rfl⟩, ?_, ?_⟩
  · exact ⟨_, hrelated.after count, hbalanced⟩
  · rw [State.after_rest, List.length_drop]
    omega

/-- The scan stands at the character that is ahead of the parse. -/
theorem InStep.exists_next (hhead : u.rest.head? = some c) (hc : IsSolid c) :
  ∃ v, Related track.base u v ∧ Next v c v ∧
    Balanced track.dialect track.stops prev stack v track.finish
  := by
  obtain ⟨v, hrelated, hbalanced⟩ := h
  exact ⟨v, hrelated, .of_isSolid (by rw [← hrelated.rest_eq, hhead]) hc, hbalanced⟩

theorem InStep.opening (hhead : u.rest.head? = some c) (hd : closing? c = some d) :
  track.InStep .operator (d :: stack) (u.after 1)
  := by
  obtain ⟨hclosing, hcomma⟩ := not_isClosing_of_closing? hd
  have hc : IsSolid c := by
    unfold closing? at hd
    split at hd <;> first | decide | cases hd
  obtain ⟨v, hrelated, hnext, hbalanced⟩ := h.exists_next hhead hc
  have hgo := not_mem_stops track.areStops hclosing hcomma
  exact ⟨_, hrelated.after 1, hbalanced.of_opening hnext hgo hd⟩

/-! ### Lexemes that are not brackets -/

/-- A lexeme of the scan, and the scan behind it. -/
theorem InStep.exists_lexeme (hhead : u.rest.head? = some c) (hc : IsSolid c)
    (hopening : closing? c = none) (hclosing : ¬ IsClosing c) (htemplate : c ≠ '\x60')
    (hcomma : stack = [] → c ≠ ',') :
  ∃ v w prev', Related track.base u v ∧ Next v c v ∧
    Runs (lexeme (contextAt track.dialect v) ⟨0, prev⟩ c) v ⟨0, prev'⟩ w ∧
    Balanced track.dialect track.stops prev' stack w track.finish ∧
    w.rest.length < u.rest.length
  := by
  obtain ⟨v, hrelated, hnext, hbalanced⟩ := h.exists_next hhead hc
  obtain ⟨prev', w, hlexeme, hbalanced⟩ := hbalanced.of_other hnext
    (fun hstack => not_mem_stops track.areStops hclosing (hcomma hstack)) hopening hclosing htemplate
  obtain ⟨later, hrest⟩ := hnext.exists_rest_eq
  have hlt := Cursor.length_lt_of_lexeme (ample_contextAt _ (Nat.le_refl _)) hrest hlexeme
  rw [← hrelated.rest_eq] at hlt
  exact ⟨v, w, prev', hrelated, hnext, hlexeme, hbalanced, hlt⟩

theorem InStep.punctuation (hhead : u.rest.head? = some c) (hc : c ∈ punctuation)
    (hcomma : stack = [] → c ≠ ',') :
  track.InStep .operator stack (u.after 1)
  := by
  have hplain : IsSolid c ∧ closing? c = none ∧ ¬ IsClosing c ∧ c ≠ '\x60' := by
    simp only [Scan.punctuation, List.mem_cons, List.not_mem_nil, or_false] at hc
    obtain rfl | rfl | rfl | rfl | rfl | rfl | rfl | rfl | rfl | rfl | rfl := hc <;>
      simp [IsClosing, closing?] <;> decide
  obtain ⟨hsolid, hopening, hclosing, htemplate⟩ := hplain
  obtain ⟨v, w, prev', hrelated, -, hlexeme, hbalanced, -⟩ :=
    h.exists_lexeme hhead hsolid hopening hclosing htemplate hcomma
  rw [lexeme_punctuation hc, operator, runs_bind] at hlexeme
  obtain ⟨_, _, hskip, hplace⟩ := hlexeme
  obtain rfl := runs_skip.mp hskip
  obtain ⟨hplace, rfl⟩ := runs_pure.mp hplace
  cases hplace
  exact ⟨_, hrelated.after 1, hbalanced⟩

/-- A name or a number of the scan, and the scan behind it. -/
theorem InStep.exists_word (hhead : u.rest.head? = some c) (hc : isNameChar c = true) :
  ∃ v w prev', Related track.base u v ∧
    Runs (lexeme (contextAt track.dialect v) ⟨0, prev⟩ c) v ⟨0, prev'⟩ w ∧
    Balanced track.dialect track.stops prev' stack w track.finish
  := by
  have hne {d : Char} (hd : isNameChar d = false) : c ≠ d := ne_of_isNameChar hc hd
  have hopening : closing? c = none := by
    rw [closing?.eq_def]
    split <;> first | rfl | exact absurd hc (by decide)
  have hclosing : ¬ IsClosing c := by
    rintro (rfl | rfl | rfl) <;> exact absurd hc (by decide)
  obtain ⟨v, w, prev', hrelated, -, hlexeme, hbalanced, -⟩ :=
    h.exists_lexeme hhead (isSolid_of_isNameChar hc) hopening hclosing (hne (by decide))
      fun _ => hne (by decide)
  exact ⟨v, w, prev', hrelated, hlexeme, hbalanced⟩

/-- A name is the same for the parse and for the scan. -/
theorem InStep.name (hhead : u.rest.head? = some c) (hc : isNameStart c = true) :
  ∃ prev', track.InStep prev' stack (u.after (u.rest.takeWhile isNameChar).length) ∧
    (operatorWords.contains (String.ofList (u.rest.takeWhile isNameChar)) = true →
      prev' = .operator)
  := by
  obtain ⟨v, w, prev', hrelated, hlexeme, hbalanced⟩ :=
    h.exists_word hhead (isNameChar_of_isNameStart hc)
  rw [lexeme_of_isNameChar (isNameChar_of_isNameStart hc), if_pos hc] at hlexeme
  simp only [runs_bind, runs_takeWhile, runs_pure, and_assoc, exists_and_left,
    exists_eq_left, Place.mk.injEq, true_and] at hlexeme
  obtain ⟨rfl, rfl⟩ := hlexeme
  rw [hrelated.rest_eq]
  exact ⟨_, ⟨_, hrelated.after _, hbalanced⟩, fun hword => if_pos hword⟩

/-- A number of the scan. -/
theorem InStep.number (hhead : u.rest.head? = some c) (hc : c.isDigit = true) :
  ∃ prev', track.InStep prev' stack (u.after (u.rest.takeWhile isNumberChar).length)
  := by
  have hname : isNameChar c = true := by simp [isNameChar, hc]
  have hstart : ¬ isNameStart c = true := by
    intro hstart
    simp [isDigit_of_isNameStart hstart] at hc
  obtain ⟨v, w, prev', hrelated, hlexeme, hbalanced⟩ := h.exists_word hhead hname
  rw [lexeme_of_isNameChar hname, if_neg hstart] at hlexeme
  simp only [discard_bind, runs_bind, runs_takeWhile, runs_pure, and_assoc, exists_and_left,
    exists_eq_left, Place.mk.injEq, true_and] at hlexeme
  obtain ⟨rfl, rfl⟩ := hlexeme
  rw [hrelated.rest_eq]
  exact ⟨_, _, hrelated.after _, hbalanced⟩

/-- A string is the same for the parse and for the scan. -/
theorem InStep.stringLiteral (hhead : u.rest.head? = some c) (hc : c = '"' ∨ c = '\'') :
  Arrives (Scan.stringLiteral c) u fun _ t => track.Past stack u.rest.length t
  := by
  have hplain : IsSolid c ∧ closing? c = none ∧ ¬ IsClosing c ∧ c ≠ '\x60' ∧ c ≠ ',' := by
    obtain rfl | rfl := hc <;> simp [IsClosing, closing?] <;> decide
  obtain ⟨hsolid, hopening, hclosing, htemplate, hcomma⟩ := hplain
  obtain ⟨v, w, prev', hrelated, hnext, hlexeme, hbalanced, hlt⟩ :=
    h.exists_lexeme hhead hsolid hopening hclosing htemplate fun _ => hcomma
  rw [lexeme_quote hc, discard_bind, runs_bind] at hlexeme
  obtain ⟨literal, w, hliteral, hplace⟩ := hlexeme
  obtain ⟨-, rfl⟩ := runs_pure.mp hplace
  obtain ⟨t, ht, hw⟩ := hrelated.runs (fun _ => uniform_stringLiteral) (by
    rintro ⟨body, span⟩ t ht
    obtain ⟨-, -, rfl⟩ := runs_stringLiteral ht hnext.head
    exact Steps.pass _ _ _) hliteral
  exact ⟨literal, t, ht, ⟨⟨prev', _, hw, hbalanced⟩, by rwa [hw.rest_eq]⟩⟩

/-- A template of the scan, and the scan behind it. -/
theorem InStep.exists_template (hhead : u.rest.head? = some '\x60') :
  ∃ v w, Related track.base u v ∧ Filled track.dialect w (v.after 1) ∧
    Balanced track.dialect track.stops .operand stack w track.finish ∧
    w.rest.length < u.rest.length
  := by
  obtain ⟨v, hrelated, hnext, hbalanced⟩ := h.exists_next hhead (by decide)
  obtain ⟨w, ends, hskip, hholes, hbalanced⟩ := hbalanced.of_template hnext rfl
    (not_mem_stops track.areStops (by simp [IsClosing]) (by decide))
  obtain ⟨later, hrest⟩ := hnext.exists_rest_eq
  have hample := ample_contextAt track.dialect (Nat.le_refl v.rest.length)
  have hlexeme : Runs (lexeme (contextAt track.dialect v) ⟨0, prev⟩ '\x60') v ⟨0, .operand⟩ w := by
    rw [lexeme_template, runs_bind]
    exact ⟨(), w, hskip, rfl⟩
  have hlt := Cursor.length_lt_of_lexeme hample hrest hlexeme
  simp only [skipTemplate, runs_bind, runs_position, runs_skip, and_assoc, exists_and_left,
    exists_eq_left, exists_const] at hskip
  have hfilled := filled_of_runs (hample.mono (by simp)) hskip hholes
  exact ⟨v, w, hrelated, hfilled, hbalanced, by rwa [hrelated.rest_eq]⟩

end InStep

/-- What is a number for the parse is one or more names, numbers and dots for the scan. -/
theorem InStep.run (u : State) {prev : Previous} (h : track.InStep prev stack u) :
  ∃ prev', track.InStep prev' stack
    (u.after (u.rest.takeWhile fun d => isNameChar d || d = '.').length)
  := by
  let kind (d : Char) : Bool := isNameChar d || d = '.'
  change ∃ prev', track.InStep prev' stack (u.after (u.rest.takeWhile kind).length)
  -- A first lexeme in the run, and the rest of the run by induction.
  have hstep {count : Nat} {prev' : Previous} (hcount : 0 < count) (hne : u.rest ≠ [])
      (hrun : (u.rest.takeWhile kind).length =
        count + ((u.after count).rest.takeWhile kind).length)
      (hmore : track.InStep prev' stack (u.after count)) :
      ∃ prev', track.InStep prev' stack (u.after (u.rest.takeWhile kind).length) := by
    have hlt := length_after_lt hne hcount
    rw [hrun, ← State.after_after]
    exact InStep.run (u.after count) hmore
  cases hrest : u.rest with
  | nil =>
    rw [List.takeWhile_nil, List.length_nil, State.after_zero]
    exact ⟨prev, h⟩
  | cons c later =>
    have hhead : u.rest.head? = some c := by rw [hrest, List.head?_cons]
    have hne := Cursor.ne_nil_of_head? hhead
    rw [← hrest]
    by_cases hstart : isNameStart c = true
    · obtain ⟨prev', hname, -⟩ := h.name hhead hstart
      apply hstep (length_takeWhile_pos hhead (isNameChar_of_isNameStart hstart)) hne _ hname
      exact length_takeWhile_of_imp (fun d hd => by simp [kind, hd]) u.rest
    by_cases hdigit : c.isDigit = true
    · obtain ⟨prev', hnumber⟩ := h.number hhead hdigit
      have hc : isNumberChar c = true := by simp [isNumberChar, Char.isAlphanum, hdigit]
      apply hstep (length_takeWhile_pos hhead hc) hne _ hnumber
      apply length_takeWhile_of_imp
      intro d hd
      simp only [isNumberChar, Char.isAlphanum, Bool.or_eq_true, decide_eq_true_eq] at hd
      simp only [kind, isNameChar, isNameStart, Bool.or_eq_true, decide_eq_true_eq]
      tauto
    by_cases hdot : c = '.'
    · subst hdot
      apply hstep Nat.one_pos hne _ (h.punctuation hhead (by decide) (by simp))
      rw [State.after_rest, hrest, List.takeWhile_cons_of_pos (by simp [kind]), List.length_cons,
        Nat.add_comm]
      rfl
    · have hkind : ¬ kind c = true := by simp [kind, isNameChar, hstart, hdigit, hdot]
      rw [hrest, List.takeWhile_cons_of_neg hkind, List.length_nil, State.after_zero]
      exact ⟨prev, h⟩
  termination_by u.rest.length

/-! ### Inside brackets and behind them -/

/-- At a stop outside all brackets the scan has come to its end. -/
theorem InStep.related_finish (h : track.InStep prev [] u) (hhead : u.rest.head? = some c)
    (hc : c ∈ track.stops) :
  Related track.base u track.finish
  := by
  obtain ⟨v, hrelated, hnext, hbalanced⟩ :=
    h.exists_next hhead (isSolid_of_mem_stops track.areStops hc)
  rwa [← hbalanced.of_stop hnext rfl hc]

theorem InStep.closing (h : track.InStep prev (d :: stack) u) (hhead : u.rest.head? = some d)
    (hd : IsClosing d) :
  ∃ prev', track.InStep prev' stack (u.after 1)
  := by
  have hsolid : IsSolid d := by obtain rfl | rfl | rfl := hd <;> decide
  obtain ⟨v, hrelated, hnext, hbalanced⟩ := h.exists_next hhead hsolid
  obtain ⟨prev', hbalanced⟩ := hbalanced.of_closing hnext rfl hd
  exact ⟨prev', _, hrelated.after 1, hbalanced⟩

theorem InStep.past_closing (h : track.InStep prev (d :: stack) u)
    (hhead : u.rest.head? = some d) (hd : IsClosing d) :
  track.Past stack u.rest.length (u.after 1)
  := ⟨h.closing hhead hd, length_after_lt (Cursor.ne_nil_of_head? hhead) Nat.one_pos⟩

/-- Inside brackets there is a track to where the code in them may end, and the parse is in step
again when it has come to the end of that track. -/
theorem InStep.inner (h : track.InStep prev (d :: stack) u) {ends : List Char}
    (hstops : AreStops ends) (hends : Closes ends d) :
  ∃ inner : Track, inner.base = track.base ∧ inner.dialect = track.dialect ∧
    inner.stops = ends ∧ inner.InStep prev [] u ∧
    ∀ t, Related inner.base t inner.finish → (∃ prev', track.InStep prev' (d :: stack) t) ∧
      (∃ c ∈ ends, t.rest.head? = some c) ∧ t.rest.length ≤ u.rest.length
  := by
  obtain ⟨v, hrelated, hbalanced⟩ := h
  have hstack : d :: stack = [] ++ d :: stack := rfl
  obtain ⟨m, prev', c, hinner, houter, hhead, hc⟩ := hbalanced.split hstack hends
  use ⟨track.base, track.dialect, ends, hstops, m⟩, rfl, rfl, rfl, ⟨v, hrelated, hinner⟩
  intro t ht
  rw [ht.rest_eq, hrelated.rest_eq]
  exact ⟨⟨prev', m, ht, houter⟩, ⟨c, hc, hhead⟩, hinner.length_le⟩

/-! ### Constructs that the parse passes over as the scan does -/

section Constructs

variable {context : Context} (hcontext : context.Ample u.rest.length)
  (hdialect : context.dialect = track.dialect)
include hcontext hdialect

/-- An element is the same for the parse and for the scan. -/
theorem InStep.element (h : track.InStep .operator stack u) (hhead : u.rest.head? = some '<')
    (hallows : track.dialect.allowsElements = true) :
  Arrives (Scan.element context) u fun found t =>
    found = true → track.Past stack u.rest.length t
  := by
  obtain ⟨v, w, prev', hrelated, hnext, hlexeme, hbalanced, hlt⟩ :=
    h.exists_lexeme hhead (by decide) rfl (by simp [IsClosing]) (by decide) fun _ => by decide
  have hangle : lexeme (contextAt track.dialect v) ⟨0, .operator⟩ '<' = (do
      if ← Scan.element (contextAt track.dialect v) then return ⟨0, .operand⟩
      else operator ⟨0, .operator⟩) := if_pos hallows
  rw [hangle, runs_bind] at hlexeme
  obtain ⟨found, w', helement, hplace⟩ := hlexeme
  obtain ⟨t, ht, hw⟩ := hrelated.runs
    (fun company => uniform_element (uniform_nested company _ _))
    (fun hruns => element_steps (nested_traced _ _) hruns []) helement
  have hsame : Scan.element context u = Scan.element (contextAt track.dialect v) u := by
    apply Cursor.element_eq hcontext _ hdialect hhead
    exact ample_contextAt _ (Nat.le_of_eq (congrArg List.length hrelated.rest_eq))
  refine ⟨found, t, hsame.trans ht, ?_⟩
  rintro rfl
  obtain ⟨-, rfl⟩ := runs_pure.mp hplace
  exact ⟨⟨prev', _, hw, hbalanced⟩, by rwa [hw.rest_eq]⟩

/-- Code is passed up to the end of the track. -/
theorem InStep.code (h : track.InStep .operator [] u) :
  Arrives (Scan.code context track.stops) u fun found t =>
    found = true ∧ Related track.base t track.finish
  := by
  obtain ⟨v, hrelated, hbalanced⟩ := h
  have hcode : Runs (Scan.code (contextAt track.dialect v) track.stops) v true track.finish :=
    hbalanced.runs track.areStops (Nat.lt_succ_self _)
  obtain ⟨t, ht, hfinish⟩ := hrelated.runs
    (fun company => uniform_code (uniform_nested company _ _))
    (fun hruns => code_steps (nested_traced _ _) hruns []) hcode
  have hsame : Scan.code context track.stops u =
      Scan.code (contextAt track.dialect v) track.stops u := by
    apply Cursor.code_eq hcontext _ hdialect track.areStops
    exact ample_contextAt _ (Nat.le_of_eq (congrArg List.length hrelated.rest_eq))
  exact ⟨true, t, hsame.trans ht, rfl, hfinish⟩

/-- Code in braces is passed. -/
theorem InStep.braced (h : track.InStep prev stack u) (hhead : u.rest.head? = some '\x7b') :
  Arrives (Scan.braced context) u fun _ t => track.Past stack u.rest.length t
  := by
  have hlt := length_after_lt (Cursor.ne_nil_of_head? hhead) Nat.one_pos
  obtain ⟨inside, hinside, hsame, hnested⟩ := hcontext.exists_scans hlt
  obtain ⟨inner, hbase, hinner, hends, hinStep, hback⟩ :=
    (h.opening hhead rfl).inner (by simp [AreStops]) closes_brace
  rw [Scan.braced, arrives_position, arrives_skip, hnested]
  have hcode := hinStep.code hinside ((hsame.trans hdialect).trans hinner.symm)
  rw [hends] at hcode
  apply Arrives.bind hcode
  rintro _ t ⟨rfl, hrelated⟩
  obtain ⟨⟨prev', hback⟩, ⟨c, hc, hclose⟩, hle⟩ := hback t hrelated
  obtain rfl := List.mem_singleton.mp hc
  have hclosed := hback.closing hclose (by simp [IsClosing])
  exact ⟨(), t.after 1, rfl, hclosed, by
    rw [State.after_rest, List.length_drop]
    omega⟩

end Constructs

end Track

end UtilityClasses.Scan
