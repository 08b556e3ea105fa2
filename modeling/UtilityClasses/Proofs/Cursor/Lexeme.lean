import UtilityClasses.Cursor.Lexeme
import UtilityClasses.Proofs.Cursor.Steps

/-!
# The lexemes of a cursor

A loop over the bytes of a name, a string, a comment or a regular expression comes as far as the
length of the lexeme says.
-/

namespace UtilityClasses.Cursor

open Text (byteSize)
open Scan (Runs)

variable {α γ δ σ : Type} {source : List Char} {s t : Scan.State} {c : Char} {text : List Char}

/-! ### Names -/

/-- The scan that has passed the first character of a name passes the others. -/
theorem takeWhile_apply_after {kind : Char → Bool} (hrest : s.rest = c :: text)
    (hc : kind c = true) :
  (discard (Scan.takeWhile kind) : Scan Unit) s = discard (Scan.takeWhile kind) (s.after 1)
  := by
  have hruns : Runs (discard (Scan.takeWhile kind) : Scan Unit) s ()
      ((s.after 1).after (text.takeWhile kind).length) := by
    rw [Scan.runs_discard]
    use s.rest.takeWhile kind
    rw [Scan.runs_takeWhile, Scan.State.after_after, hrest, List.takeWhile_cons_of_pos hc,
      List.length_cons, Nat.add_comm 1]
    exact ⟨rfl, rfl⟩
  have hruns' : Runs (discard (Scan.takeWhile kind) : Scan Unit) (s.after 1) ()
      ((s.after 1).after (text.takeWhile kind).length) := by
    rw [Scan.runs_discard]
    use text.takeWhile kind
    rw [Scan.runs_takeWhile, Scan.State.after_rest, hrest]
    exact ⟨rfl, rfl⟩
  exact hruns.trans hruns'.symm

/-- A name is passed as a whole. -/
theorem mirrors_eatName (s : Scan.State) :
  Mirrors source s eatName (discard (Scan.takeWhile Scan.isNameChar))
  := by
  cases hrest : s.rest with
  | nil =>
    apply Agrees.last
    rw [nameRound, agrees_current, hrest]
    apply Agrees.of_runs (b := ())
    · simp [hrest]
    · exact ⟨(), rfl, rfl, .refl s⟩
  | cons c text =>
    have hkind : isNameByte (lead (c :: text)) = Scan.isNameChar c :=
      reflects_isNameByte.lead_cons
    by_cases hname : Scan.isNameChar c = true
    · apply Agrees.again (by simp [hrest]) Nat.one_pos _ (takeWhile_apply_after hrest hname)
      · exact (mirrors_eatName (s.after 1)).follow (.after s 1)
      · rw [nameRound, agrees_current, hrest, hkind, if_pos hname]
        split
        · exact mirrors_advanceChar.bind_left fun _ _ _ _ _ => .pure rfl
        · next hlead =>
          have hascii : IsAscii c := by
            by_contra h
            exact hlead (le_lead_cons h)
          have hhead : s.rest.head? = some c := by rw [hrest, List.head?_cons]
          exact (mirrors_advance hascii hhead).bind_left fun _ _ _ _ _ => .pure rfl
    · have hascii : IsAscii c := by
        by_contra h
        apply hname
        simp [Scan.isNameChar, isNameStart_of_not_isAscii h]
      apply Agrees.last
      rw [nameRound, agrees_current, hrest, hkind, lead_cons_of_isAscii hascii,
        if_neg (byte_lt hascii), if_neg hname]
      apply Agrees.of_runs (b := ())
      · simp [hrest, hname]
      · exact ⟨(), rfl, rfl, .refl s⟩
  termination_by s.rest.length
  decreasing_by
    apply Scan.length_after_lt _ Nat.one_pos
    simp [hrest]

/-- A name is passed. -/
theorem Agrees.eatName {β : Type} {Q : γ → β → Scan.State → Prop} {f : Unit → Reading γ}
    {g : List Char → Scan β}
    (hnext : Agrees source (s.after (s.rest.takeWhile Scan.isNameChar).length) (f ())
      (g (s.rest.takeWhile Scan.isNameChar)) Q) :
  Agrees source s (eatName >>= f) (Scan.takeWhile Scan.isNameChar >>= g) Q
  := by
  have hrun (hat : s.At source) : Cursor.eatName source (.of s) =
      .ok ((), .of (s.after (s.rest.takeWhile Scan.isNameChar).length)) := by
    have hdiscard : (discard (Scan.takeWhile Scan.isNameChar) : Scan Unit) s =
      .ok ((), s.after (s.rest.takeWhile Scan.isNameChar).length) := rfl
    obtain ⟨_, _, t, hx, hy, -⟩ | ⟨error, -, hy⟩ := mirrors_eatName s hat
    · rw [Runs, hdiscard] at hy
      cases hy
      exact hx
    · rw [hdiscard] at hy
      cases hy
  apply Agrees.move hrun (fun hat => hat.after _) _ hnext
  rw [Scan.bind_apply, Scan.takeWhile_apply]

/-! ### Blanks and comments -/

/-- A comment is passed as a whole. -/
theorem mirrors_skipComment (s : Scan.State) :
  Mirrors source s skipComment Scan.commentStep
  := by
  rw [Mirrors, skipComment, agrees_current, Scan.commentStep, agrees_scan_rest]
  simp (disch := decide) only [lead_eq_byte_iff]
  split
  · next hslash =>
    obtain ⟨text, hrest⟩ := List.head?_eq_some_iff.mp hslash
    rw [agrees_peek (by decide) hrest]
    simp (disch := decide) only [lead_eq_byte_iff, hrest, List.drop_succ_cons, List.drop_zero]
    split
    · apply mirrors_eatLine.bind
      intro _ t _ hfollows
      exact .pure ⟨rfl, hfollows⟩
    · split
      · next hstar =>
        obtain ⟨later, rfl⟩ := List.head?_eq_some_iff.mp hstar
        rw [agrees_position, agrees_scan_position]
        apply (mirrors_advanceBy ['/', '*'] (forall_isAscii (by decide)) ⟨later, hrest.symm⟩).bind
        intro _ t _ hfollows
        apply (mirrors_skipPast (forall_isAscii (by decide)) (by simp)).bind
        intro found u _ hfollows'
        split
        · exact .pure ⟨rfl, hfollows.trans hfollows'⟩
        · exact .fail
      · exact .pure ⟨rfl, .refl s⟩
  · exact .pure ⟨rfl, .refl s⟩

/-- Blanks and comments are passed as a whole. -/
theorem mirrors_skipTrivia (s : Scan.State) :
  Mirrors source s skipTrivia Scan.skipTrivia
  := by
  rw [Mirrors, Agrees.congr_right (Scan.skipTrivia_apply s), skipTrivia, ← bind_assoc]
  apply Agrees.rounds (P := fun r more t => Follows s t ∧
    r = (if more then .again () else .done ()) ∧ (more = true → t.rest.length < s.rest.length))
  · rw [triviaRound]
    apply mirrors_eatSpacing.bind
    intro _ t _ hfollows
    apply Agrees.bind_left (mirrors_skipComment t)
    rintro more _ u hcomment ⟨rfl, hfollows'⟩
    have hlt : more = true → u.rest.length < s.rest.length := by
      rintro rfl
      exact Nat.lt_of_lt_of_le (Scan.commentStep_length_lt hcomment) hfollows.length_le
    cases more with
    | true => exact .pure ⟨hfollows.trans hfollows', rfl, hlt⟩
    | false => exact .pure ⟨hfollows.trans hfollows', rfl, hlt⟩
  · rintro _ more t - ⟨hfollows, hround, -⟩
    cases more with
    | true => cases hround
    | false => exact .pure ⟨rfl, hfollows⟩
  · rintro _ more t - ⟨hfollows, hround, hlt⟩
    cases more with
    | true => exact ⟨hfollows, hlt rfl, (mirrors_skipTrivia t).follow hfollows⟩
    | false => cases hround
  termination_by s.rest.length
  decreasing_by exact hlt rfl

/-! ### Strings -/

/-- A backslash takes with it what it takes. -/
theorem agrees_escape {escaped : List Char} {r : γ} (hrest : s.rest = '\\' :: escaped) :
  Agrees source s (do
      advance
      if (← current) = byte '\r' && (← peek) = byte '\n' then advance
      advanceChar
      return r)
    (Scan.skip (Scan.escapeLength escaped)) fun a _ _ => a = r
  := by
  have hhead : s.rest.head? = some '\\' := by rw [hrest, List.head?_cons]
  have hafter : (s.after 1).rest = escaped := by
    rw [Scan.State.after_rest, hrest]
    rfl
  by_cases hbreak : ∃ later, escaped = '\r' :: '\n' :: later
  · obtain ⟨later, rfl⟩ := hbreak
    have hhead' : (s.after 1).rest.head? = some '\r' := by rw [hafter, List.head?_cons]
    apply Agrees.advance (w := Scan.skip 2) (by decide) hhead
    · rw [Scan.skip_apply, Scan.skip_apply, Scan.State.after_after]
      rfl
    · rw [agrees_current, hafter, agrees_peek (by decide) hafter]
      simp (disch := decide) only [lead_eq_byte_iff, List.head?_cons, decide_true, Bool.and_self,
        if_true]
      apply Agrees.advance (w := Scan.skip 1) (by decide) hhead'
      · simp only [Scan.skip_apply, Scan.State.after_after]
      · exact mirrors_advanceChar.bind_left fun _ _ _ _ _ => .pure rfl
  · have hlast : Scan.skip (Scan.escapeLength escaped) s = Scan.skip 1 (s.after 1) := by
      rw [Scan.skip_apply, Scan.skip_apply]
      fun_cases Scan.escapeLength escaped with
      | case1 later => exact absurd ⟨later, rfl⟩ hbreak
      | case2 => rw [Scan.State.after_after]
      | case3 => rw [after_of_rest_nil hafter]
    have hcond : (decide (lead escaped = byte '\r') &&
        decide ((encode escaped)[1]?.getD 0 = byte '\n')) = false := by
      rw [Bool.eq_false_iff, Ne, Bool.and_eq_true, decide_eq_true_eq, decide_eq_true_eq,
        lead_eq_byte_iff (by decide)]
      rintro ⟨hreturn, hfeed⟩
      obtain ⟨more, rfl⟩ := List.head?_eq_some_iff.mp hreturn
      rw [encode_cons_getElem? (by decide)] at hfeed
      obtain ⟨later, rfl⟩ :=
        List.head?_eq_some_iff.mp ((lead_eq_byte_iff (by decide)).mp hfeed)
      exact hbreak ⟨later, rfl⟩
    apply Agrees.advance (by decide) hhead hlast
    rw [agrees_current, peek, agrees_byteAhead, hafter, hcond, if_neg Bool.false_ne_true]
    exact mirrors_advanceChar.bind_left fun _ _ _ _ _ => .pure rfl

/-- The text of a string literal is passed as a whole, and so is the quote behind it. -/
theorem mirrors_stringRounds {quote : Char} (hquote : quote = '"' ∨ quote = '\'') (start : Nat)
    (s : Scan.State) :
  Mirrors source s (rounds (fun _ => stringRound (byte quote) start) ())
    (Scan.stringTail quote start)
  := by
  have hascii : ∀ d ∈ [quote, '\\', '\n'], IsAscii d := by
    obtain rfl | rfl := hquote <;> exact forall_isAscii (by decide)
  have hsign : IsSign quote := by obtain rfl | rfl := hquote <;> decide
  have hbackslash : quote ≠ '\\' := by obtain rfl | rfl := hquote <;> decide
  obtain ⟨plain, later, hrest, hplain, hlater⟩ := exists_plain [quote, '\\', '\n'] s.rest
  have hdrop : (s.after plain.length).rest = later := Scan.State.after_length_rest hrest
  have htail : Scan.stringTail quote start s =
      Scan.stringTail quote start (s.after plain.length) := by
    apply Scan.stringTail_apply_after
    rw [hdrop, hrest, Scan.stringBody_append]
    intro c hc
    have hc := hplain c hc
    simp only [List.mem_cons, List.not_mem_nil, or_false, not_or] at hc
    exact ⟨hc.2.1, hc.1, hc.2.2⟩
  by_cases hescape : later.head? = some '\\'
  · obtain ⟨escaped, rfl⟩ := List.head?_eq_some_iff.mp hescape
    have hcount : 0 < plain.length + Scan.escapeLength escaped := by
      rw [Scan.escapeLength.eq_def]
      split <;> omega
    apply Agrees.again (by simp [hrest]) hcount
    · apply Agrees.seek (w := Scan.skip (Scan.escapeLength escaped)) hascii hrest hplain hlater
      · simp only [Scan.skip_apply, Scan.State.after_after]
      · simp (disch := decide) only [lead_eq_byte_iff, List.head?_cons, if_true]
        exact agrees_escape hdrop
    · rw [htail, ← Scan.State.after_after]
      apply Scan.stringTail_apply_after
      rw [hdrop, Scan.stringBody_escape hbackslash, Scan.State.after_rest, hdrop]
    · exact (mirrors_stringRounds hquote start _).follow (.after s _)
  · have hbody : Scan.stringBody quote (s.after plain.length).rest = 0 := by
      rw [hdrop]
      cases later with
      | nil => rfl
      | cons c later =>
        have hc := hlater c rfl
        simp only [List.head?_cons, Option.some.injEq] at hescape
        simp only [List.mem_cons, List.not_mem_nil, or_false, hescape, false_or] at hc
        exact Scan.stringBody_end hc hescape later
    rw [Scan.stringTail_apply_end start hbody, hdrop] at htail
    apply Agrees.last
    apply Agrees.seek hascii hrest hplain hlater htail
    have hclose : lead later = byte quote ↔ later.head? = some quote :=
      lead_eq_byte_iff hsign
    simp (disch := decide) only [lead_eq_byte_iff, if_neg hescape, hclose]
    split
    · next hhead =>
      rw [← hdrop] at hhead
      apply (mirrors_advance hsign.1 hhead).bind
      intro _ t _ hfollows
      rw [agrees_spanFrom]
      apply Agrees.of_runs (Scan.runs_spanFrom.mpr ⟨rfl, rfl⟩)
      exact ⟨_, rfl, rfl, (Follows.after s _).trans hfollows⟩
    · exact .fail
  termination_by s.rest.length
  decreasing_by exact Scan.length_after_lt (by simp [hrest]) hcount

/-- A string literal is passed as a whole. -/
theorem agrees_skipString {quote : Char} (hquote : quote = '"' ∨ quote = '\'')
    (hhead : s.rest.head? = some quote) :
  Agrees source s skipString (Scan.stringLiteral quote) fun span literal t =>
    span = literal.2 ∧ Follows s t
  := by
  have hsign : IsSign quote := by obtain rfl | rfl := hquote <;> decide
  apply Agrees.of_map (R := fun span span' t => span = span' ∧ Follows s t)
  rw [Scan.snd_map_stringLiteral, skipString, agrees_position, agrees_scan_position,
    agrees_current, (lead_eq_byte_iff hsign).mpr hhead]
  apply (mirrors_advance hsign.1 hhead).bind
  intro _ t _ hfollows
  exact (mirrors_stringRounds hquote s.pos t).follow hfollows

/-! ### Regular expressions -/

/-- What the rounds over a regular expression come to: they pass it and its flags, or stop
somewhere. -/
def RegexOutcome (source : List Char) (s : Scan.State) (inClass : Bool) : Option Nat → Prop
  | some length =>
    Agrees source s (rounds regexRound inClass)
      (do
        Scan.skip length
        discard (Scan.takeWhile Scan.isNameChar))
      fun found _ _ => found = true
  | none =>
    ∃ count, Agrees source s (rounds regexRound inClass) (Scan.skip count)
      fun found _ _ => found = false

theorem RegexOutcome.again {inClass : Bool} {count : Nat} {body : Option Nat} (next : Bool)
    (hne : s.rest ≠ []) (hcount : 0 < count)
    (hround : Agrees source s (regexRound inClass) (Scan.skip count) fun r _ _ => r = .again next)
    (h : RegexOutcome source (s.after count) next body) :
  RegexOutcome source s inClass (body.map (· + count))
  := by
  cases body with
  | some length =>
    apply Agrees.again hne hcount hround _ h
    simp only [Scan.bind_apply, Scan.skip_apply, Scan.State.after_after, Nat.add_comm count]
  | none =>
    obtain ⟨more, h⟩ := h
    use count + more
    apply Agrees.again hne hcount hround _ h
    simp only [Scan.skip_apply, Scan.State.after_after]

/-- A round that finds that the expression is not closed on its line. -/
theorem RegexOutcome.open {inClass : Bool} (count : Nat)
    (hround : Agrees source s (regexRound inClass) (Scan.skip count) fun r _ _ => r = .done false) :
  RegexOutcome source s inClass none
  := ⟨count, Agrees.last (hround.mono fun _ _ _ _ _ h => ⟨false, h, rfl⟩)⟩

theorem isLineBreak_eq (c : Char) :
  (decide (c = '\n') || decide (c = '\r')) = Scan.isLineBreak c
  := rfl

/-- A backslash takes the next character with it, but no line break. -/
theorem regexOutcome_backslash {inClass : Bool} {later : List Char}
    (hrest : s.rest = '\\' :: later)
    (hnext : ∀ t : Scan.State, t.rest.length < s.rest.length →
      RegexOutcome source t inClass (Scan.regexBody inClass t.rest)) :
  RegexOutcome source s inClass (Scan.regexBody inClass ('\\' :: later))
  := by
  have hne : s.rest ≠ [] := by simp [hrest]
  have hhead : s.rest.head? = some '\\' := by rw [hrest, List.head?_cons]
  have hafter : (s.after 1).rest = later := by
    rw [Scan.State.after_rest, hrest]
    rfl
  cases later with
  | nil =>
    have hbody : Scan.regexBody inClass ['\\'] = none := by
      simp [Scan.regexBody]
    rw [hbody]
    apply RegexOutcome.open 1
    simp (disch := decide) only [regexRound, agrees_current, lead_eq_byte_iff, hhead, if_true]
    apply (mirrors_advance (by decide) hhead).bind_left
    rintro _ _ t ht -
    obtain rfl := Scan.runs_skip.mp ht
    rw [agrees_current, agrees_atEnd, hafter, List.isEmpty_nil, Bool.or_true, if_pos rfl]
    exact .pure rfl
  | cons c more =>
    have hbody : Scan.regexBody inClass ('\\' :: c :: more) =
        if Scan.isLineBreak c then none else (Scan.regexBody inClass more).map (· + 2) := by
      rw [Scan.regexBody]
    rw [hbody]
    split
    · next hbreak =>
      apply RegexOutcome.open 1
      simp (disch := decide) only [regexRound, agrees_current, lead_eq_byte_iff, hhead, if_true]
      apply (mirrors_advance (by decide) hhead).bind_left
      rintro _ _ t ht -
      obtain rfl := Scan.runs_skip.mp ht
      simp (disch := decide) only [agrees_current, agrees_atEnd, hafter, lead_eq_byte_iff,
        List.head?_cons, Option.some.injEq, isLineBreak_eq, hbreak, Bool.true_or, if_true]
      exact .pure rfl
    · next hbreak =>
      apply RegexOutcome.again inClass hne Nat.two_pos
      · simp (disch := decide) only [regexRound, agrees_current, lead_eq_byte_iff, hhead, if_true]
        apply Agrees.advance (w := Scan.skip 1) (by decide) hhead
        · simp only [Scan.skip_apply, Scan.State.after_after]
        · simp (disch := decide) only [agrees_current, agrees_atEnd, hafter, lead_eq_byte_iff,
            List.head?_cons, Option.some.injEq, isLineBreak_eq, hbreak, List.isEmpty_cons,
            Bool.or_false]
          exact mirrors_advanceChar.bind_left fun _ _ _ _ _ => .pure rfl
      · have hmore : (s.after 2).rest = more := by
          rw [Scan.State.after_rest, hrest]
          rfl
        have h := hnext (s.after 2) (Scan.length_after_lt hne Nat.two_pos)
        rwa [hmore] at h

/-- The rounds over a regular expression come as far as its length says. -/
theorem regexOutcome (source : List Char) (inClass : Bool) (s : Scan.State) :
  RegexOutcome source s inClass (Scan.regexBody inClass s.rest)
  := by
  cases hrest : s.rest with
  | nil =>
    apply RegexOutcome.open 0
    simp (disch := decide) only [regexRound, agrees_current, hrest, lead_eq_byte_iff,
      List.head?_nil, reduceCtorEq, if_false, decide_false, Bool.false_and, Bool.false_eq_true,
      agrees_atEnd, List.isEmpty_nil, Bool.or_true, if_true]
    exact .of_runs (b := ()) (Scan.runs_skip.mpr s.after_zero.symm) rfl
  | cons c later =>
    have hne : s.rest ≠ [] := by simp [hrest]
    have hhead : s.rest.head? = some c := by rw [hrest, List.head?_cons]
    by_cases hbackslash : c = '\\'
    · subst hbackslash
      exact regexOutcome_backslash hrest fun t _ => regexOutcome source inClass t
    · have hbody : Scan.regexBody inClass (c :: later) =
          if c = '/' && !inClass then some 1
          else if Scan.isLineBreak c then none
          else (Scan.regexBody (if c = '[' then true else if c = ']' then false else inClass)
            later).map (· + 1) := by
        rw [Scan.regexBody]
        intro d rest hc
        exact absurd hc hbackslash
      rw [hbody]
      split
      · next hslash =>
        obtain ⟨rfl, rfl⟩ : c = '/' ∧ inClass = false := by simpa using hslash
        apply Agrees.last
        simp (disch := decide) only [regexRound, agrees_current, lead_eq_byte_iff, hhead,
          Option.some.injEq, Char.reduceEq, if_false, decide_true, Bool.not_false, Bool.and_self,
          if_true]
        apply (mirrors_advance (by decide) hhead).bind
        intro _ t _ _
        exact (mirrors_eatWhile reflects_isNameByte).bind_left
          fun _ _ _ _ _ => .pure ⟨true, rfl, rfl⟩
      · next hslash =>
        split
        · next hbreak =>
          have hopen : c ≠ '[' := by
            rintro rfl
            simp [Scan.isLineBreak] at hbreak
          have hclose : c ≠ ']' := by
            rintro rfl
            simp [Scan.isLineBreak] at hbreak
          apply RegexOutcome.open 0
          simp (disch := decide) only [regexRound, agrees_current, agrees_atEnd, lead_eq_byte_iff,
            hhead, Option.some.injEq, hbackslash, hopen, hclose, hslash, isLineBreak_eq, hbreak,
            if_false, Bool.true_or, if_true, Bool.false_eq_true]
          exact .of_runs (b := ()) (Scan.runs_skip.mpr s.after_zero.symm) rfl
        · next hbreak =>
          apply RegexOutcome.again (if c = '[' then true else if c = ']' then false else inClass)
            hne Nat.one_pos
          · simp (disch := decide) only [regexRound, agrees_current, lead_eq_byte_iff,
              List.head?_cons, Option.some.injEq, hbackslash, hslash, isLineBreak_eq, hbreak,
              hrest, if_false, Bool.false_eq_true]
            split
            · next hopen =>
              subst hopen
              exact (mirrors_advance (by decide) hhead).bind_left fun _ _ _ _ _ => .pure rfl
            · split
              · next hclose =>
                subst hclose
                exact (mirrors_advance (by decide) hhead).bind_left fun _ _ _ _ _ => .pure rfl
              · rw [agrees_atEnd, hrest, List.isEmpty_cons, Bool.or_false,
                  if_neg Bool.false_ne_true]
                exact mirrors_advanceChar.bind_left fun _ _ _ _ _ => .pure rfl
          · have hafter : (s.after 1).rest = later := by
              rw [Scan.State.after_rest, hrest]
              rfl
            rw [← hafter]
            exact regexOutcome source _ (s.after 1)
  termination_by s.rest.length
  decreasing_by
    · assumption
    · exact Scan.length_after_lt hne Nat.one_pos

/-- A regular expression is passed as a whole; if there is none, the cursor ends where it was. -/
theorem mirrors_skipRegex (hhead : s.rest.head? = some '/') :
  Mirrors source s skipRegex Scan.skipRegex
  := by
  apply Agrees.of_at
  intro hat
  rw [skipRegex, agrees_position, Scan.skipRegex, agrees_scan_rest]
  have houtcome := regexOutcome source false (s.after 1)
  rw [Scan.State.after_rest] at houtcome
  cases hbody : Scan.regexBody false (s.rest.drop 1) with
  | some length =>
    rw [hbody] at houtcome
    have hskip : (Scan.skip (length + 1) >>= fun _ =>
        (discard (Scan.takeWhile Scan.isNameChar) : Scan Unit) >>= fun _ => pure true) s =
        ((Scan.skip length >>= fun _ => discard (Scan.takeWhile Scan.isNameChar)) >>= fun _ =>
          pure true : Scan Bool) (s.after 1) := by
      rw [bind_assoc]
      simp only [Scan.bind_apply, Scan.skip_apply, Scan.State.after_after, Nat.add_comm 1]
    apply Agrees.advance (by decide) hhead hskip
    apply Agrees.bind houtcome
    rintro _ _ t ht rfl
    simp only [Scan.runs_bind, Scan.runs_skip, Scan.runs_discard, Scan.runs_takeWhile] at ht
    obtain ⟨-, _, rfl, _, -, rfl⟩ := ht
    rw [if_pos rfl]
    exact .pure ⟨rfl, ((Follows.after s 1).trans (.after _ _)).trans (.after _ _)⟩
  | none =>
    rw [hbody] at houtcome
    obtain ⟨count, hrounds⟩ := houtcome
    have hback : (pure false : Scan Bool) s =
        (Scan.skip 1 >>= fun _ => Scan.skip count >>= fun _ => set s >>= fun _ => pure false) s :=
      rfl
    apply (Agrees.congr_right hback).mpr
    apply Agrees.skip (by decide) hhead
    apply Agrees.bind hrounds
    rintro _ _ u hu rfl
    obtain rfl := Scan.runs_skip.mp hu
    rw [if_neg Bool.false_ne_true]
    exact Agrees.moveBack hat rfl rfl (.pure ⟨rfl, .refl s⟩)

end UtilityClasses.Cursor
