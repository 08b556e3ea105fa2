import UtilityClasses.Proofs.Scan.Passes

/-!
# Scans in rounds

A scan passes over a lexeme in one step, of a length that is a function of the text ahead. Here
the same is done in rounds: a part of the lexeme is passed, and what is left to be passed is the
lexeme that starts there.
-/

namespace UtilityClasses.Scan

open Text (byteSize)

variable {α β : Type} {s t : State} {c : Char} {text later : List Char}

/-! ### Steps as functions -/

theorem bind_apply (x : Scan α) (f : α → Scan β) (s : State) :
  (x >>= f) s =
    match x s with
    | .ok (a, t) => f a t
    | .error stop => .error stop
  := by
  change (x s).bind _ = _
  cases x s <;> rfl

theorem ite_apply {p : Prop} [Decidable p] (x y : Scan α) (s : State) :
  (if p then x else y) s = if p then x s else y s
  := by
  split <;> rfl

theorem pure_apply (a : α) (s : State) :
  (pure a : Scan α) s = .ok (a, s)
  := rfl

theorem rest_apply (s : State) :
  rest s = .ok (s.rest, s)
  := rfl

theorem position_apply (s : State) :
  position s = .ok (s.pos, s)
  := rfl

theorem skip_apply (count : Nat) (s : State) :
  skip count s = .ok ((), s.after count)
  := rfl

theorem take_apply (count : Nat) (s : State) :
  take count s = .ok (s.rest.take count, s.after count)
  := rfl

theorem takeWhile_apply (kind : Char → Bool) (s : State) :
  takeWhile kind s = .ok (s.rest.takeWhile kind, s.after (s.rest.takeWhile kind).length)
  := runs_takeWhile.mpr ⟨rfl, rfl⟩

theorem spanFrom_apply (start : Nat) (s : State) :
  spanFrom start s = .ok (⟨start, s.pos⟩, s)
  := rfl

theorem fail_apply (cause : SourceError.Cause) (start : Nat) (s : State) :
  (fail cause start : Scan α) s = .error (.error ⟨cause, ⟨start, s.pos⟩⟩)
  := rfl

theorem fail_bind (cause : SourceError.Cause) (start : Nat) (f : α → Scan β) :
  (fail cause start >>= f) = fail cause start
  := rfl

/-- What is taken from the text and what is left of it. -/
theorem rest_eq_takeWhile_append (kind : Char → Bool) (s : State) :
  s.rest = s.rest.takeWhile kind ++ (s.after (s.rest.takeWhile kind).length).rest
  := by
  rw [State.after_rest, drop_length_takeWhile, List.takeWhile_append_dropWhile]

/-- The end of the text is the end from wherever it is reached. -/
theorem after_length_after (s : State) (count : Nat) :
  (s.after count).after (s.after count).rest.length = s.after s.rest.length
  := by
  rw [State.after_after, State.after_rest, List.length_drop]
  by_cases h : count ≤ s.rest.length
  · rw [Nat.add_sub_cancel' h]
  · have htake : count + (s.rest.length - count) = count := by omega
    rw [htake, ← s.after_length_take count, List.take_of_length_le (by omega)]

theorem length_after_le (s : State) (count : Nat) :
  (s.after count).rest.length ≤ s.rest.length
  := by
  rw [State.after_rest, List.length_drop]
  exact Nat.sub_le _ _

/-- Less is left after a character. -/
theorem length_after_lt {count : Nat} (h : s.rest ≠ []) (hcount : 0 < count) :
  (s.after count).rest.length < s.rest.length
  := by
  have hpos := List.length_pos_iff.mpr h
  simp only [State.after_rest, List.length_drop]
  omega

/-! ### Comments -/

/-- Passes over a comment, and returns whether there is one. -/
def commentStep : Scan Bool := do
  let ahead ← rest
  if ahead.head? = some '/' then
    let next := (ahead.drop 1).head?
    if next = some '/' then
      skipLine
      return true
    else if next = some '*' then
      let start ← position
      skip 2
      if ← skipPast ['*', '/'] then return true else fail .openComment start
    else
      return false
  else
    return false

/-- A comment that is closed is not empty and no longer than the text. -/
theorem length_of_comment {count : Nat} (h : comment text = .closed count) :
  0 < count ∧ count ≤ text.length
  := by
  fun_cases comment text with
  | case1 later =>
    rw [comment, Comment.closed.injEq] at h
    have hle := (List.takeWhile_prefix (p := fun c => !isLineBreak c) (l := later)).length_le
    simp only [List.length_cons]
    omega
  | case2 later inside hinside =>
    obtain ⟨body, last, rfl, hbody, -⟩ := exists_append_of_offsetOf hinside
    rw [comment, hinside, Comment.closed.injEq] at h
    simp only [List.length_cons, List.length_append, List.length_nil]
    omega
  | case3 later hinside => simp [comment, hinside] at h
  | case4 hline hblock => simp [comment] at h

/-- A comment is passed, if there is one that is closed. -/
theorem commentStep_apply (s : State) :
  commentStep s =
    match comment s.rest with
    | .absent => .ok (false, s)
    | .closed length => .ok (true, s.after length)
    | .unclosed => .error (.error ⟨.openComment, ⟨s.pos, (s.after s.rest.length).pos⟩⟩)
  := by
  simp only [commentStep, bind_apply, rest_apply, ite_apply]
  generalize hrest : s.rest = text
  fun_cases comment text with
  | case1 later =>
    have hline : Runs skipLine s ()
        (s.after ((later.takeWhile fun c => !isLineBreak c).length + 2)) := by
      rw [runs_skipLine, hrest]
      rfl
    simp only [List.head?_cons, List.drop_succ_cons, List.drop_zero, eq_self, if_true]
    rw [hline]
    rfl
  | case2 later inside hinside =>
    have hafter : (s.after 2).rest = later := by
      rw [State.after_rest, hrest]
      rfl
    have hskip : Runs (skipPast ['*', '/']) (s.after 2) true (s.after (inside + 4)) := by
      rw [runs_skipPast, hafter]
      refine .inl ⟨inside, hinside, rfl, ?_⟩
      rw [State.after_after, ← Nat.add_assoc, Nat.add_comm 2, Nat.add_assoc]
      rfl
    simp only [List.head?_cons, List.drop_succ_cons, List.drop_zero, eq_self, if_true,
      Option.some.injEq, Char.reduceEq, if_false, position_apply, skip_apply]
    rw [hskip]
    rfl
  | case3 later hinside =>
    have hafter : (s.after 2).rest = later := by
      rw [State.after_rest, hrest]
      rfl
    have hskip : Runs (skipPast ['*', '/']) (s.after 2) false
        (s.after ('/' :: '*' :: later).length) := by
      rw [runs_skipPast, hafter]
      refine .inr ⟨hinside, rfl, ?_⟩
      rw [State.after_after, Nat.add_comm 2]
      rfl
    simp only [List.head?_cons, List.drop_succ_cons, List.drop_zero, eq_self, if_true,
      Option.some.injEq, Char.reduceEq, if_false, position_apply, skip_apply]
    rw [hskip]
    rfl
  | case4 _ hline hblock =>
    split
    · next hslash =>
      obtain ⟨rest, rfl⟩ := List.head?_eq_some_iff.mp hslash
      rw [List.drop_succ_cons, List.drop_zero, if_neg, if_neg]
      · rfl
      · intro hstar
        obtain ⟨later, rfl⟩ := List.head?_eq_some_iff.mp hstar
        exact hblock later rfl
      · intro hnext
        obtain ⟨later, rfl⟩ := List.head?_eq_some_iff.mp hnext
        exact hline later rfl
    · rfl

/-! ### Blanks and comments -/

/-- A run of blanks and comments with more characters in front. -/
def shiftTrivia (count : Nat) : Trivia → Trivia
  | .closed length => .closed (count + length)
  | .unclosed start => .unclosed (count + start)

theorem shiftTrivia_succ (count : Nat) (run : Trivia) :
  (shiftTrivia count run).succ = shiftTrivia (count + 1) run
  := by
  cases run <;> simp [shiftTrivia, Trivia.succ, Nat.add_right_comm]

theorem shiftTrivia_zero (run : Trivia) :
  shiftTrivia 0 run = run
  := by
  cases run <;> simp [shiftTrivia]

theorem triviaAfter_eq (count : Nat) (text : List Char) (h : count ≤ text.length) :
  triviaAfter count text = shiftTrivia count (trivia (text.drop count))
  := by
  induction count generalizing text with
  | zero => rw [shiftTrivia_zero, List.drop_zero, trivia]
  | succ count ih =>
    cases text with
    | nil => simp at h
    | cons c text =>
      rw [triviaAfter, ih text (Nat.le_of_succ_le_succ h), shiftTrivia_succ,
        List.drop_succ_cons]

/-- Blanks come first. -/
theorem trivia_eq_shift (text : List Char) :
  trivia text =
    shiftTrivia (text.takeWhile isSpacing).length
      (trivia (text.dropWhile isSpacing))
  := by
  induction text with
  | nil => rfl
  | cons c text ih =>
    by_cases hc : isSpacing c = true
    · rw [List.takeWhile_cons_of_pos hc, List.dropWhile_cons_of_pos hc, List.length_cons,
        ← shiftTrivia_succ, ← ih, trivia, triviaAfter, if_pos hc]
      rfl
    · rw [List.takeWhile_cons_of_neg hc, List.dropWhile_cons_of_neg hc]
      exact (shiftTrivia_zero _).symm

/-- Where there are no blanks, a comment comes first. -/
theorem trivia_of_comment (h : ∀ c ∈ text.head?, isSpacing c = false) :
  trivia text =
    match comment text with
    | .absent => .closed 0
    | .closed length => shiftTrivia length (trivia (text.drop length))
    | .unclosed => .unclosed 0
  := by
  cases text with
  | nil => rfl
  | cons c text =>
    have hc : isSpacing c = false := h c rfl
    rw [trivia, triviaAfter, if_neg (by simp [hc])]
    cases hcomment : comment (c :: text) with
    | absent => rfl
    | unclosed => rfl
    | closed count =>
      obtain ⟨hpos, hle⟩ := length_of_comment hcomment
      obtain ⟨n, rfl⟩ := Nat.exists_eq_succ_of_ne_zero (Nat.ne_of_gt hpos)
      rw [List.length_cons] at hle
      simp only [Nat.succ_eq_add_one, Nat.add_sub_cancel, List.drop_succ_cons]
      rw [triviaAfter_eq n text (Nat.le_of_succ_le_succ hle), shiftTrivia_succ]

/-- What happens where blanks and comments are passed. -/
theorem skipTrivia_eq (s : State) :
  skipTrivia s =
    match trivia s.rest with
    | .closed length => .ok ((), s.after length)
    | .unclosed start =>
      .error (.error ⟨.openComment, ⟨(s.after start).pos, (s.after s.rest.length).pos⟩⟩)
  := by
  simp only [skipTrivia, bind_apply, rest_apply]
  cases trivia s.rest with
  | closed length => rfl
  | unclosed start =>
    have hend : (s.after start).after s.rest.length = s.after s.rest.length := by
      rw [State.after_after, ← s.after_length_take, List.take_of_length_le (by omega)]
    simp only [bind_apply, skip_apply, position_apply, fail_apply, hend]

/-- The text starts neither with a blank nor with a comment. -/
def Settled (text : List Char) : Prop :=
  ∀ c ∈ text.head?, isSpacing c = false ∧ c ≠ '/'

/-- What comes behind blanks starts where the blanks end. -/
theorem trivia_append {blanks : List Char} (hblanks : ∀ c ∈ blanks, isSpacing c = true)
    (h : Settled later) :
  trivia (blanks ++ later) = .closed blanks.length
  := by
  rw [trivia]
  induction blanks with
  | nil =>
    cases later with
    | nil => rfl
    | cons c rest =>
      obtain ⟨hblank, hslash⟩ := h c rfl
      have habsent : comment (c :: rest) = .absent := by
        rw [comment.eq_def]
        split
        · next heq => exact absurd (List.cons.inj heq).1 hslash
        · next heq => exact absurd (List.cons.inj heq).1 hslash
        · rfl
      simp [triviaAfter, hblank, habsent]
  | cons c blanks ih =>
    rw [List.forall_mem_cons] at hblanks
    rw [List.cons_append, triviaAfter, if_pos hblanks.1, ih hblanks.2]
    rfl

/-- Where nothing is to be passed, the scan stays. -/
theorem skipTrivia_of_settled (h : Settled s.rest) :
  skipTrivia s = .ok ((), s)
  := by
  have htrivia : trivia s.rest = .closed 0 := trivia_append (List.forall_mem_nil _) h
  rw [skipTrivia_eq, htrivia]
  exact congrArg (fun t => Except.ok ((), t)) s.after_zero

/-- What is known to belong to blanks and comments may be passed first. -/
theorem skipTrivia_of_shift {count : Nat}
    (h : trivia s.rest = shiftTrivia count (trivia (s.after count).rest)) :
  skipTrivia s = skipTrivia (s.after count)
  := by
  rw [skipTrivia_eq, skipTrivia_eq, h, after_length_after]
  cases trivia (s.after count).rest with
  | closed length => simp only [shiftTrivia, State.after_after]
  | unclosed start => simp only [shiftTrivia, State.after_after]

/-- Blanks and comments are passed in rounds. -/
theorem skipTrivia_apply (s : State) :
  skipTrivia s =
    (skipSpacing >>= fun _ => commentStep >>= fun more =>
      if more then skipTrivia else pure ()) s
  := by
  let t := s.after (s.rest.takeWhile isSpacing).length
  have hspacing : skipSpacing s = .ok ((), t) := runs_skipSpacing.mpr rfl
  have hrest : t.rest = s.rest.dropWhile isSpacing := drop_length_takeWhile _ _
  have hhead : ∀ c ∈ t.rest.head?, isSpacing c = false := by
    rw [hrest]
    exact (eq_takeWhile_iff.mp
      (congrArg _ (List.takeWhile_append_dropWhile (p := isSpacing) (l := s.rest)))).2
  have htrivia : skipTrivia s = skipTrivia t := by
    apply skipTrivia_of_shift
    rw [trivia_eq_shift, ← hrest]
  have hcomment := trivia_of_comment hhead
  simp only [htrivia, bind_apply, hspacing, commentStep_apply]
  cases hkind : comment t.rest with
  | absent =>
    rw [hkind] at hcomment
    rw [skipTrivia_eq, hcomment]
    exact congrArg (fun u => Except.ok ((), u)) t.after_zero
  | closed count =>
    rw [hkind] at hcomment
    exact skipTrivia_of_shift hcomment
  | unclosed =>
    rw [hkind] at hcomment
    rw [skipTrivia_eq, hcomment]
    simp only [State.after_zero]

theorem commentStep_length_lt (h : Runs commentStep s true t) :
  t.rest.length < s.rest.length
  := by
  rw [Runs, commentStep_apply] at h
  cases hcomment : comment s.rest with
  | absent => simp [hcomment] at h
  | unclosed => simp [hcomment] at h
  | closed count =>
    obtain ⟨hpos, hle⟩ := length_of_comment hcomment
    rw [hcomment] at h
    obtain ⟨-, rfl⟩ := Prod.mk.inj (Except.ok.inj h)
    apply length_after_lt _ hpos
    rintro hnil
    simp [hnil] at hle
    omega

/-- Without a comment nothing is passed. -/
theorem eq_of_runs_commentStep (h : Runs commentStep s false t) :
  t = s
  := by
  rw [Runs, commentStep_apply] at h
  cases hcomment : comment s.rest with
  | absent =>
    rw [hcomment] at h
    exact (Prod.mk.inj (Except.ok.inj h)).2.symm
  | closed count => simp [hcomment] at h
  | unclosed => simp [hcomment] at h

/-- Whether a text starts with a comment. -/
def StartsComment (text : List Char) : Prop :=
  text.head? = some '/' ∧ ((text.drop 1).head? = some '*' ∨ (text.drop 1).head? = some '/')

theorem commentStep_of_not (h : ¬ StartsComment s.rest) :
  commentStep s = .ok (false, s)
  := by
  simp only [StartsComment, not_and, not_or] at h
  simp only [commentStep, bind_apply, rest_apply, ite_apply]
  split
  · next hslash => rw [if_neg (h hslash).2, if_neg (h hslash).1, pure_apply]
  · rw [pure_apply]

theorem comment_ne_absent (h : StartsComment text) :
  comment text ≠ .absent
  := by
  obtain ⟨hslash, hnext⟩ := h
  obtain ⟨rest, rfl⟩ := List.head?_eq_some_iff.mp hslash
  rw [List.drop_succ_cons, List.drop_zero] at hnext
  obtain hstar | hline := hnext
  · obtain ⟨later, rfl⟩ := List.head?_eq_some_iff.mp hstar
    rw [comment]
    split <;> simp
  · obtain ⟨later, rfl⟩ := List.head?_eq_some_iff.mp hline
    simp [comment]

theorem eq_true_of_runs_commentStep {found : Bool} (h : StartsComment s.rest)
    (hruns : Runs commentStep s found t) :
  found = true
  := by
  rw [Runs, commentStep_apply] at hruns
  cases hcomment : comment s.rest with
  | absent => exact absurd hcomment (comment_ne_absent h)
  | closed count =>
    rw [hcomment] at hruns
    exact (Prod.mk.inj (Except.ok.inj hruns)).1.symm
  | unclosed => simp [hcomment] at hruns

/-- Passes over blanks, and over comments too where there can be some. -/
def between (comments : Bool) : Scan Unit :=
  if comments then skipTrivia else skipSpacing

/-- Passes over blanks and then over a comment, without a result, or over what follows if there
is no comment. -/
def betweenStep (comments : Bool) (x : Scan α) : Scan (Option α) := do
  skipSpacing
  if ← (if comments then commentStep else return false) then return none else some <$> x

/-- What lies between is passed in rounds. -/
theorem between_bind_apply (comments : Bool) (x : Scan α) (g : α → Scan β) (s : State) :
  (between comments >>= fun _ => x >>= g) s =
    (betweenStep comments x >>= fun item =>
      match item with
      | some a => g a
      | none => between comments >>= fun _ => x >>= g) s
  := by
  cases comments with
  | false =>
    simp only [between, betweenStep, if_neg Bool.false_ne_true, pure_bind, bind_assoc,
      bind_map_left]
  | true =>
    have htrivia : (skipTrivia >>= fun _ => x >>= g) s =
        ((skipSpacing >>= fun _ => commentStep >>= fun more =>
          if more then skipTrivia else pure ()) >>= fun _ => x >>= g) s := by
      simp only [bind_apply _ _ s, skipTrivia_apply s]
    simp only [between, betweenStep, if_pos, htrivia, bind_assoc]
    congr! 5 with _ more
    cases more with
    | true => rfl
    | false => simp only [if_neg Bool.false_ne_true, pure_bind, bind_map_left]

/-! ### Strings -/

/-- Characters that have no meaning of their own in a string. -/
theorem stringBody_append {quote : Char} {text : List Char}
    (h : ∀ c ∈ text, c ≠ '\\' ∧ c ≠ quote ∧ c ≠ '\n') (later : List Char) :
  stringBody quote (text ++ later) = text.length + stringBody quote later
  := by
  induction text with
  | nil => simp
  | cons c text ih =>
    rw [List.forall_mem_cons] at h
    obtain ⟨⟨hbackslash, hquote, hfeed⟩, htext⟩ := h
    have hplain : (c = quote || c = '\n') = false := by simp [hquote, hfeed]
    rw [List.cons_append, stringBody.eq_def]
    split
    · next heq => exact absurd (List.cons.inj heq).1 hbackslash
    · next heq => exact absurd (List.cons.inj heq).1 hbackslash
    · next heq =>
      obtain ⟨rfl, rfl⟩ := List.cons.inj heq
      rw [if_neg (by simp [hplain]), ih htext, List.length_cons]
      omega
    · next heq => simp at heq

/-- A backslash takes the next character with it. -/
theorem stringBody_backslash {quote c : Char} (h : c ≠ '\r') (later : List Char) :
  stringBody quote ('\\' :: c :: later) = stringBody quote later + 2
  := by
  rw [stringBody.eq_def]
  split
  · next heq => exact absurd (List.cons.inj (List.cons.inj heq).2).1 h
  · next heq =>
    obtain ⟨-, heq⟩ := List.cons.inj heq
    rw [(List.cons.inj heq).2]
  · next hnot heq =>
    obtain ⟨rfl, rfl⟩ := List.cons.inj heq
    exact (hnot c later rfl rfl).elim
  · next heq => simp at heq

/-- The length of what a backslash takes with it in a string, itself included: a character, or a
line break made of two. -/
def escapeLength : List Char → Nat
  | '\r' :: '\n' :: _ => 3
  | _ :: _ => 2
  | [] => 1

theorem stringBody_escape {quote : Char} (hquote : quote ≠ '\\') (text : List Char) :
  stringBody quote ('\\' :: text) =
    escapeLength text + stringBody quote (('\\' :: text).drop (escapeLength text))
  := by
  cases text with
  | nil => simp [stringBody, escapeLength, hquote.symm]
  | cons c later =>
    by_cases hreturn : ∃ more, c = '\r' ∧ later = '\n' :: more
    · obtain ⟨more, rfl, rfl⟩ := hreturn
      rw [stringBody, escapeLength, Nat.add_comm]; rfl
    · have hnot : ∀ more, c = '\r' → later = '\n' :: more → False :=
        fun more hc hlater => hreturn ⟨more, hc, hlater⟩
      rw [stringBody, escapeLength, Nat.add_comm]
      · rfl
      · exact hnot
      · exact hnot

theorem stringBody_end {quote : Char} (h : c = quote ∨ c = '\n') (hc : c ≠ '\\')
    (later : List Char) :
  stringBody quote (c :: later) = 0
  := by
  rw [stringBody.eq_def]
  split
  · next heq => exact absurd (List.cons.inj heq).1 hc
  · next heq => exact absurd (List.cons.inj heq).1 hc
  · next heq =>
    obtain ⟨rfl, rfl⟩ := List.cons.inj heq
    rw [if_pos (by simpa using h)]
  · rfl

/-- Passes over the rest of a string literal that started at an earlier offset. -/
def stringTail (quote : Char) (start : Nat) : Scan Span := do
  skip (stringBody quote (← rest))
  if (← rest).head? = some quote then
    skip 1
    spanFrom start
  else
    fail .openString start

/-- The span of a string literal. -/
theorem snd_map_stringLiteral (quote : Char) :
  Prod.snd <$> stringLiteral quote = (do
    let start ← position
    skip 1
    stringTail quote start)
  := by
  funext s
  rw [map_eq_pure_bind, bind_apply]
  simp only [stringLiteral, stringTail, bind_apply, position_apply, skip_apply, rest_apply,
    ite_apply, take_apply, spanFrom_apply]
  by_cases hclose : ((s.after 1).after (stringBody quote (s.after 1).rest)).rest.head? = some quote
  · simp only [if_pos hclose]
    rfl
  · simp only [if_neg hclose]
    rfl

theorem stringTail_apply_after {quote : Char} {count : Nat} (start : Nat)
    (h : stringBody quote s.rest = count + stringBody quote (s.after count).rest) :
  stringTail quote start s = stringTail quote start (s.after count)
  := by
  simp only [stringTail, bind_apply, rest_apply, skip_apply, h, ← State.after_after]

theorem stringTail_apply_end {quote : Char} (start : Nat) (h : stringBody quote s.rest = 0) :
  stringTail quote start s =
    (if s.rest.head? = some quote then skip 1 >>= fun _ => spanFrom start
      else fail .openString start) s
  := by
  simp only [stringTail, bind_apply, rest_apply, skip_apply, h, State.after_zero]

/-! ### Templates -/

/-- Characters that have no meaning of their own in a template. -/
theorem templateText_append {text : List Char}
    (h : ∀ c ∈ text, c ≠ '\x60' ∧ c ≠ '\\' ∧ c ≠ '$') (later : List Char) :
  templateText (text ++ later) = text.length + templateText later
  := by
  induction text with
  | nil => simp
  | cons c text ih =>
    rw [List.forall_mem_cons] at h
    obtain ⟨⟨hquote, hbackslash, hdollar⟩, htext⟩ := h
    rw [List.cons_append, templateText.eq_def]
    split
    · next heq => exact absurd (List.cons.inj heq).1 hbackslash
    · next heq => exact absurd (List.cons.inj heq).1 hdollar
    · next heq =>
      obtain ⟨rfl, rfl⟩ := List.cons.inj heq
      rw [if_neg hquote, ih htext, List.length_cons]
      omega
    · next heq => simp at heq

/-- A backslash takes the next character with it, if there is one. -/
theorem templateText_backslash (text : List Char) :
  templateText ('\\' :: text) =
    (('\\' :: text).take 2).length + templateText (('\\' :: text).drop 2)
  := by
  cases text with
  | nil => rfl
  | cons c text => rw [templateText, Nat.add_comm]; rfl

/-- A `$` that opens no hole has no meaning of its own. -/
theorem templateText_dollar (h : text.head? ≠ some '\x7b') :
  templateText ('$' :: text) = 1 + templateText text
  := by
  rw [templateText.eq_def]
  split
  · next heq => cases heq
  · next heq => simp [(List.cons.inj heq).2] at h
  · next heq =>
    obtain ⟨rfl, rfl⟩ := List.cons.inj heq
    rw [if_neg (by decide), Nat.add_comm]
  · next heq => cases heq

/-- The text of a template ends with the source, at a quote or at a hole. -/
theorem drop_templateText (text : List Char) :
  text.drop (templateText text) = [] ∨
    (text.drop (templateText text)).head? = some '\x60' ∨
    ∃ later, text.drop (templateText text) = '$' :: '\x7b' :: later
  := by
  fun_induction templateText text with
  | case1 c rest ih => simpa using ih
  | case2 rest => simp
  | case3 rest => simp
  | case4 c rest _ _ hc ih => simpa using ih
  | case5 => simp

/-- The text of a template is one without what comes after it. -/
theorem templateText_take (text : List Char) :
  templateText (text.take (templateText text)) = (text.take (templateText text)).length
  := by
  fun_induction templateText text with
  | case1 c rest ih => simp [templateText, ih]
  | case2 rest => simp [templateText]
  | case3 rest => simp [templateText]
  | case4 c rest hbackslash hhole hc ih =>
    have hhead : ∀ {d later}, rest.take (templateText rest) = d :: later →
        ∃ later', rest = d :: later' := by
      intro d later htake
      have hstart := List.take_append_drop (templateText rest) rest
      rw [htake] at hstart
      exact ⟨_, hstart.symm⟩
    rw [List.take_succ_cons, templateText.eq_def]
    split
    · next heq =>
      obtain ⟨rfl, htake⟩ := List.cons.inj heq
      obtain ⟨later, hrest⟩ := hhead htake
      exact (hbackslash _ _ rfl hrest).elim
    · next heq =>
      obtain ⟨rfl, htake⟩ := List.cons.inj heq
      obtain ⟨later, hrest⟩ := hhead htake
      exact (hhole _ rfl hrest).elim
    · next heq =>
      obtain ⟨rfl, rfl⟩ := List.cons.inj heq
      simp [hc, ih]
    · next heq => simp at heq
  | case5 => simp [templateText]

/-! ### Values -/

/-- A character is found where it first occurs. -/
theorem offsetOf_singleton {plain : List Char} (h : ∀ d ∈ plain, d ≠ c) (later : List Char) :
  offsetOf [c] (plain ++ c :: later) = some plain.length
  := by
  induction plain with
  | nil => simp [offsetOf, List.isPrefixOf]
  | cons d plain ih =>
    rw [List.forall_mem_cons] at h
    rw [List.cons_append, offsetOf, if_neg (by simpa [List.isPrefixOf] using h.1.symm), ih h.2]
    rfl

theorem offsetOf_singleton_of_not_mem (h : ∀ d ∈ text, d ≠ c) :
  offsetOf [c] text = none
  := by
  induction text with
  | nil => rfl
  | cons d text ih =>
    rw [List.forall_mem_cons] at h
    rw [offsetOf, if_neg (by simpa [List.isPrefixOf] using h.1.symm), ih h.2]
    rfl

/-- A character that is found lies behind a text without it. -/
theorem runs_skipPast_singleton {plain : List Char} (hrest : s.rest = plain ++ later)
    (hplain : ∀ d ∈ plain, d ≠ c) (hlater : ∀ d ∈ later.head?, d = c)
    (h : Runs (skipPast [c]) s true t) :
  t = (s.after plain.length).after 1 ∧ (s.after plain.length).rest.head? = some c
  := by
  rw [runs_skipPast] at h
  obtain ⟨count, hcount, -, rfl⟩ | ⟨-, hfound, -⟩ := h
  · cases later with
    | nil =>
      rw [hrest, List.append_nil, offsetOf_singleton_of_not_mem hplain] at hcount
      cases hcount
    | cons d later =>
      obtain rfl : d = c := hlater d rfl
      rw [hrest, offsetOf_singleton hplain] at hcount
      cases hcount
      rw [State.after_after, State.after_length_rest hrest]
      exact ⟨rfl, rfl⟩
  · cases hfound

/-- A value in quotes extends to the next quote. -/
theorem quotedTail_apply {plain : List Char} {quote : Quote} {name : String} {start : Nat}
    (hrest : s.rest = plain ++ later) (hplain : ∀ d ∈ plain, d ≠ c)
    (hlater : ∀ d ∈ later.head?, d = c) :
  (do
    let value ← takeWhile (· ≠ c)
    if (← rest).isEmpty then fail (.openValue name) start
    else
      skip 1
      return ⟨quote, String.ofList value, ← spanFrom start⟩ : Scan Literal) s =
  (do
    if ← skipPast [c] then return ⟨quote, String.ofList plain, ← spanFrom start⟩
    else fail (.openValue name) start : Scan Literal) s
  := by
  have htake : s.rest.takeWhile (· ≠ c) = plain := by
    rw [hrest, eq_takeWhile_iff]
    simpa using ⟨hplain, hlater⟩
  have hafter : (s.after plain.length).rest = later := State.after_length_rest hrest
  cases later with
  | nil =>
    rw [List.append_nil] at hrest
    have hnone : offsetOf [c] s.rest = none := by
      rw [hrest]
      exact offsetOf_singleton_of_not_mem hplain
    have hpast : skipPast [c] s = .ok (false, s.after s.rest.length) := by
      rw [runs_skipPast.mpr (.inr ⟨hnone, rfl, rfl⟩)]
    simp only [bind_apply, takeWhile_apply, htake, rest_apply, ite_apply, hafter, hpast]
    rw [hrest]
    rfl
  | cons d later =>
    obtain rfl : d = c := hlater d rfl
    have hsome : offsetOf [d] s.rest = some plain.length := by
      rw [hrest]
      exact offsetOf_singleton hplain later
    have hpast : skipPast [d] s = .ok (true, s.after (plain.length + 1)) :=
      runs_skipPast.mpr (.inl ⟨_, hsome, rfl, rfl⟩)
    simp only [bind_apply, takeWhile_apply, htake, rest_apply, ite_apply, hafter, hpast,
      List.isEmpty_cons, skip_apply, State.after_after]
    rfl

/-- A value without quotes goes on with a character that does not end it. -/
theorem bareValue_cons (h : isSpacing c = false) (hclose : c ≠ '>')
    (hslash : ¬ (c = '/' ∧ later.head? = some '>')) :
  bareValue (c :: later) = bareValue later + 1
  := by
  rw [bareValue, if_neg (by simp [h, hclose])]
  rintro rest rfl rfl
  exact hslash ⟨rfl, rfl⟩

theorem bareValue_end (h : text.head?.any isSpacing = true ∨ text.head? = some '>' ∨
    (text.head? = some '/' ∧ (text.drop 1).head? = some '>') ∨ text = []) :
  bareValue text = 0
  := by
  cases text with
  | nil => rfl
  | cons c later =>
    by_cases hclose : c = '/' ∧ later.head? = some '>'
    · obtain ⟨rfl, hhead⟩ := hclose
      obtain ⟨more, rfl⟩ := List.head?_eq_some_iff.mp hhead
      rfl
    · rw [bareValue, if_pos]
      · simpa [hclose] using h
      · rintro rest rfl rfl
        exact hclose ⟨rfl, rfl⟩

end UtilityClasses.Scan
