import UtilityClasses.Proofs.Trace.Tag

/-!
# Elements and code as moves

The scans of an element in code and of code are made of moves if the scans of the constructs
inside them are. Code itself leaves nothing on the stack.
-/

namespace UtilityClasses.Scan

variable {context : Context} {s s' : State}

/-! ### Elements -/

theorem openTag?_steps (hnested : context.nested.Traced) {found : Option OpenTag}
    (h : Runs (openTag? context) s found s') (stack : List Loose) :
  Steps (s, stack) (s', stack)
  := by
  simp only [openTag?, runs_bind, runs_position, runs_rest, and_assoc, exists_and_left,
    exists_eq_left] at h
  split at h
  · simp only [runs_bind, runs_skip, runs_spanFrom, runs_pure, and_assoc, exists_and_left,
      exists_eq_left, exists_const] at h
    obtain ⟨-, rfl⟩ := h
    apply Steps.pass
  · next c later _ hrest =>
    split at h
    · simp only [runs_bind, runs_get, runs_skip, runs_takeWhile, runs_rest, and_assoc,
        exists_and_left, exists_eq_left, exists_const] at h
      split at h
      · simp only [runs_bind, runs_set, runs_pure, exists_eq_left, exists_const] at h
        obtain ⟨-, rfl⟩ := h
        apply Relation.ReflTransGen.refl
      · simp only [runs_bind, runs_spanFrom, runs_pure, and_assoc, exists_and_left,
          exists_eq_left] at h
        obtain ⟨_, _, htag, -, rfl⟩ := h
        have htext : s.rest = '<' :: (c :: later).takeWhile isTagNameChar
            ++ (c :: later).dropWhile isTagNameChar := by
          rw [List.cons_append, List.takeWhile_append_dropWhile, hrest]
        apply Relation.ReflTransGen.head (Move.tag stack htext rfl)
        rw [State.after_after] at htag
        simp only [State.after_rest, hrest, List.drop_succ_cons, List.drop_zero,
          Nat.add_comm 1] at htag
        apply tag_steps hnested htag
    · obtain ⟨-, rfl⟩ := runs_pure.mp h
      apply Relation.ReflTransGen.refl
  · obtain ⟨-, rfl⟩ := runs_pure.mp h
    apply Relation.ReflTransGen.refl

theorem content_steps (hnested : context.nested.Traced) {outer : OpenTag}
    {budget inner : Nat} {u : Unit} (h : Runs (content context outer budget inner) s u s')
    (stack : List Loose) :
  Steps (s, stack) (s', stack)
  := by
  induction budget generalizing s inner with
  | zero => simp [content] at h
  | succ budget ih =>
    simp only [content, runs_bind, runs_discard, runs_takeWhile, runs_rest, and_assoc,
      exists_and_left, exists_eq_left, exists_const] at h
    apply Relation.ReflTransGen.head (.pass s stack _)
    split at h
    · simp [failUnclosed] at h
    · simp only [runs_bind, runs_skip, exists_eq_left, exists_const] at h
      obtain ⟨found, t, hpast, h⟩ := h
      apply Relation.ReflTransGen.head (.pass _ stack 2)
      obtain ⟨before, -, rfl, rfl⟩ | ⟨-, rfl, -⟩ := runs_skipPast.mp hpast
      · apply Relation.ReflTransGen.head (.pass _ stack _)
        cases inner with
        | zero =>
          obtain ⟨-, rfl⟩ := runs_pure.mp h
          apply Relation.ReflTransGen.refl
        | succ less => apply ih h
      · simp [failUnclosed] at h
    · simp only [runs_bind] at h
      obtain ⟨found, t, htag, h⟩ := h
      apply (openTag?_steps hnested htag stack).trans
      cases found with
      | none =>
        simp only [runs_bind, runs_skip, exists_eq_left, exists_const] at h
        apply Relation.ReflTransGen.head (.pass _ stack 1)
        apply ih h
      | some tag => apply ih h
    · simp only [runs_bind] at h
      obtain ⟨_, t, hbraced, h⟩ := h
      apply (braced_steps hnested hbraced stack).trans
      apply ih h

theorem element_steps (hnested : context.nested.Traced) {found : Bool}
    (h : Runs (element context) s found s') (stack : List Loose) :
  Steps (s, stack) (s', stack)
  := by
  simp only [element, runs_bind] at h
  obtain ⟨tag, t, htag, h⟩ := h
  apply (openTag?_steps hnested htag stack).trans
  split at h
  · split at h
    · obtain ⟨-, rfl⟩ := runs_pure.mp h
      apply Relation.ReflTransGen.refl
    · simp only [runs_bind, runs_pure] at h
      obtain ⟨_, _, hcontent, -, rfl⟩ := h
      apply content_steps hnested hcontent
  · obtain ⟨-, rfl⟩ := runs_pure.mp h
    apply Relation.ReflTransGen.refl

/-! ### Lexemes of code -/

theorem templateTail_steps (hnested : context.nested.Traced) {start budget : Nat} {u : Unit}
    (h : Runs (templateTail context start budget) s u s') (stack : List Loose) :
  Steps (s, stack) (s', stack)
  := by
  induction budget generalizing s with
  | zero => simp [templateTail] at h
  | succ budget ih =>
    simp only [templateTail, runs_bind, runs_rest, runs_skip, and_assoc, exists_and_left,
      exists_eq_left, exists_const] at h
    apply Relation.ReflTransGen.head (.pass s stack _)
    split at h
    · obtain rfl := runs_skip.mp h
      apply Steps.pass
    · simp at h
    · simp only [runs_bind, runs_skip, exists_eq_left, exists_const] at h
      obtain ⟨found, t, hcode, h⟩ := h
      apply Relation.ReflTransGen.head (.pass _ stack 2)
      apply (hnested.code hcode stack).trans
      split at h
      · simp only [runs_bind, runs_skip, exists_eq_left, exists_const] at h
        apply Relation.ReflTransGen.head (.pass _ stack 1)
        apply ih h
      · simp at h

theorem skipTemplate_steps (hnested : context.nested.Traced) {u : Unit}
    (h : Runs (skipTemplate context) s u s') (stack : List Loose) :
  Steps (s, stack) (s', stack)
  := by
  simp only [skipTemplate, runs_bind, runs_position, runs_skip, and_assoc, exists_and_left,
    exists_eq_left, exists_const] at h
  apply Relation.ReflTransGen.head (.pass s stack 1)
  apply templateTail_steps hnested h

theorem operator_steps {place place' : Place} (h : Runs (operator place) s place' s')
    (stack : List Loose) :
  Steps (s, stack) (s', stack)
  := by
  simp only [operator, runs_bind, runs_skip, runs_pure, exists_eq_left, exists_const] at h
  obtain ⟨-, rfl⟩ := h
  apply Steps.pass

theorem slash_steps {place place' : Place} (h : Runs (slash place) s place' s')
    (stack : List Loose) :
  Steps (s, stack) (s', stack)
  := by
  rw [slash] at h
  split at h
  · simp only [runs_bind] at h
    obtain ⟨found, t, hregex, h⟩ := h
    obtain ⟨count, rfl, -⟩ := runs_skipRegex hregex
    apply Relation.ReflTransGen.head (.pass s stack count)
    split at h
    · obtain ⟨-, rfl⟩ := runs_pure.mp h
      apply Relation.ReflTransGen.refl
    · apply operator_steps h
  · apply operator_steps h

theorem angle_steps (hnested : context.nested.Traced) {place place' : Place}
    (h : Runs (angle context place) s place' s') (stack : List Loose) :
  Steps (s, stack) (s', stack)
  := by
  rw [angle] at h
  split at h
  · simp only [runs_bind] at h
    obtain ⟨found, t, helement, h⟩ := h
    apply (element_steps hnested helement stack).trans
    split at h
    · obtain ⟨-, rfl⟩ := runs_pure.mp h
      apply Relation.ReflTransGen.refl
    · apply operator_steps h
  · apply operator_steps h

theorem lexeme_steps (hnested : context.nested.Traced) {place place' : Place} {c : Char}
    (hc : s.rest.head? = some c) (h : Runs (lexeme context place c) s place' s')
    (stack : List Loose) :
  Steps (s, stack) (s', stack)
  := by
  rw [lexeme] at h
  split_ifs at h
  · simp only [runs_bind, runs_discard, runs_pure] at h
    obtain ⟨_, _, ⟨⟨body, span⟩, hstring⟩, -, rfl⟩ := h
    obtain ⟨-, -, rfl⟩ := runs_stringLiteral hstring hc
    apply Steps.pass
  · simp only [runs_bind, runs_pure] at h
    obtain ⟨_, _, htemplate, -, rfl⟩ := h
    apply skipTemplate_steps hnested htemplate
  · apply slash_steps h
  · apply angle_steps hnested h
  -- A bracket of either kind; a brace and the other closing ones are told apart.
  iterate 3
    · simp only [runs_bind, runs_skip, runs_pure, exists_eq_left, exists_const] at h
      obtain ⟨-, rfl⟩ := h
      apply Steps.pass
  · simp only [runs_bind, runs_takeWhile, runs_pure, and_assoc, exists_and_left,
      exists_eq_left] at h
    obtain ⟨-, rfl⟩ := h
    apply Steps.pass
  · simp only [runs_bind, runs_discard, runs_takeWhile, runs_pure, exists_and_left,
      exists_eq_left, exists_const] at h
    obtain ⟨-, rfl⟩ := h
    apply Steps.pass
  · apply operator_steps h

/-! ### Code -/

theorem codeFrom_steps (hnested : context.nested.Traced) {stops : List Char} {budget : Nat}
    {place : Place} {found : Bool} (h : Runs (codeFrom context stops budget place) s found s')
    (stack : List Loose) :
  Steps (s, stack) (s', stack)
  := by
  induction budget generalizing s place with
  | zero => simp [codeFrom] at h
  | succ budget ih =>
    simp only [codeFrom, runs_bind, runs_skipTrivia, runs_rest, and_assoc, exists_and_left,
      exists_eq_left] at h
    obtain ⟨_, t, ⟨length, -, rfl⟩, h⟩ := h
    apply Relation.ReflTransGen.head (.pass s stack length)
    split at h
    · obtain ⟨-, rfl⟩ := runs_pure.mp h
      apply Relation.ReflTransGen.refl
    · next c later hrest =>
      split at h
      · obtain ⟨-, rfl⟩ := runs_pure.mp h
        apply Relation.ReflTransGen.refl
      · simp only [runs_bind] at h
        obtain ⟨place', t, hlexeme, h⟩ := h
        apply (lexeme_steps hnested (by rw [hrest, List.head?_cons]) hlexeme stack).trans
        apply ih h

theorem code_steps (hnested : context.nested.Traced) {stops : List Char} {found : Bool}
    (h : Runs (code context stops) s found s') (stack : List Loose) :
  Steps (s, stack) (s', stack)
  := codeFrom_steps hnested h stack

end UtilityClasses.Scan
