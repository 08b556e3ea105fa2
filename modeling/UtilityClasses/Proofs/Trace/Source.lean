import UtilityClasses.Proofs.Trace.Expression

/-!
# Sources as moves

The scan of a source that succeeds is made of moves. It starts and ends with an empty stack.
-/

namespace UtilityClasses.Scan

variable {context : Context} {s s' : State}

/-- The scans of all nested constructs are made of moves, whatever the budget. -/
theorem nested_traced (dialect : Dialect) (budget : Nat) :
  (nested dialect budget).Traced
  := by
  induction budget with
  | zero =>
    constructor
    · intro _ _ _ _ h
      simp [nested, Nested.none] at h
    · intro _ _ _ h
      simp [nested, Nested.none] at h
    · intro _ _ _ _ h
      simp [nested, Nested.none] at h
    · intro _ _ _ h
      simp [nested, Nested.none] at h
    · intro _ _ _ h
      simp [nested, Nested.none] at h
  | succ budget ih =>
    have hcontext : (Context.mk dialect (budget + 1) (nested dialect budget)).nested.Traced := ih
    constructor
    · intro _ _ _ _ h
      apply code_steps hcontext h
    · intro _ _ _ h
      apply element_steps hcontext h
    · intro _ _ _ _ h
      apply region_reads hcontext h
    · intro _ _ _ h
      apply expression_reads hcontext h
    · intro _ _ _ h
      apply operand_reads hcontext h

/-! ### Code -/

theorem skipPast_steps {needle : List Char} {found : Bool}
    (h : Runs (skipPast needle) s found s') (stack : List Loose) :
  Steps (s, stack) (s', stack)
  := by
  obtain ⟨before, -, -, rfl⟩ | ⟨-, -, rfl⟩ := runs_skipPast.mp h
  · apply Steps.pass
  · apply Steps.pass

theorem script_steps (hnested : context.nested.Traced) {u : Unit}
    (h : Runs (script context) s u s') :
  Steps (s, []) (s', [])
  := by
  simp only [script, interpreterLine, runs_bind, runs_discard, runs_rest, and_assoc,
    exists_and_left, exists_eq_left] at h
  obtain ⟨_, t, hline, found, hcode⟩ := h
  have hsteps : Steps (s, []) (t, []) := by
    split at hline
    · obtain rfl := runs_skipLine.mp hline
      apply Steps.pass
    · obtain ⟨-, rfl⟩ := runs_pure.mp hline
      apply Relation.ReflTransGen.refl
  apply hsteps.trans (code_steps hnested hcode [])

/-! ### Documents -/

theorem frontmatter_steps {u : Unit} (h : Runs frontmatter s u s') :
  Steps (s, []) (s', [])
  := by
  simp only [frontmatter, runs_bind, runs_get, runs_skipSpacing, runs_rest, and_assoc,
    exists_and_left, exists_eq_left, exists_const] at h
  split at h
  · simp only [runs_bind, runs_skip, exists_eq_left, exists_const] at h
    obtain ⟨found, t, hpast, h⟩ := h
    apply Relation.ReflTransGen.head (.pass s _ _)
    apply Relation.ReflTransGen.head (.pass _ _ 3)
    apply (skipPast_steps hpast []).trans
    split at h
    · obtain rfl := runs_skipLine.mp h
      apply Steps.pass
    · obtain ⟨-, rfl⟩ := runs_pure.mp h
      apply Relation.ReflTransGen.refl
  · obtain rfl := runs_set.mp h
    apply Relation.ReflTransGen.refl

theorem documentElement_steps (hnested : context.nested.Traced)
    (hopening : s.rest.head? = some '<') {u : Unit}
    (h : Runs (documentElement context) s u s') :
  Steps (s, []) (s', [])
  := by
  simp only [documentElement, runs_bind, runs_position, runs_skip, runs_takeWhile, and_assoc,
    exists_and_left, exists_eq_left, exists_const] at h
  obtain ⟨closed, t, htag, h⟩ := h
  obtain ⟨text, htext⟩ := List.head?_eq_some_iff.mp hopening
  have hname : s.rest = '<' :: text.takeWhile isTagNameChar ++ text.dropWhile isTagNameChar := by
    rw [List.cons_append, List.takeWhile_append_dropWhile, htext]
  apply Relation.ReflTransGen.head (Move.tag [] hname rfl)
  rw [State.after_after] at htag
  simp only [State.after_rest, htext, List.drop_succ_cons, List.drop_zero,
    Nat.add_comm 1] at htag
  apply (tag_steps hnested htag []).trans
  split at h
  · obtain ⟨-, rfl⟩ := runs_pure.mp h
    apply Relation.ReflTransGen.refl
  · split at h
    · simp only [runs_bind, runs_rest, runs_skip, and_assoc, exists_and_left,
        exists_eq_left] at h
      subst h
      apply Steps.pass
    · obtain ⟨-, rfl⟩ := runs_pure.mp h
      apply Relation.ReflTransGen.refl

theorem documentTag_steps (hnested : context.nested.Traced)
    (hopening : s.rest.head? = some '<') {u : Unit}
    (h : Runs (documentTag context) s u s') :
  Steps (s, []) (s', [])
  := by
  simp only [documentTag, runs_bind, runs_rest, and_assoc, exists_and_left,
    exists_eq_left] at h
  split at h
  · simp only [runs_bind, runs_position, runs_skip, and_assoc, exists_and_left, exists_eq_left,
      exists_const] at h
    obtain ⟨found, t, hpast, h⟩ := h
    apply Relation.ReflTransGen.head (.pass s _ 4)
    apply (skipPast_steps hpast []).trans
    split at h
    · obtain ⟨-, rfl⟩ := runs_pure.mp h
      apply Relation.ReflTransGen.refl
    · simp at h
  · split_ifs at h
    · simp only [runs_bind, runs_skip, runs_discard, exists_eq_left, exists_const] at h
      obtain ⟨found, hpast⟩ := h
      apply Relation.ReflTransGen.head (.pass s _ 2)
      apply skipPast_steps hpast
    · apply documentElement_steps hnested hopening h
    · obtain rfl := runs_skip.mp h
      apply Steps.pass
  · obtain rfl := runs_skip.mp h
    apply Steps.pass

theorem documentBraces_steps (hnested : context.nested.Traced) {u : Unit}
    (h : Runs (documentBraces context) s u s') :
  Steps (s, []) (s', [])
  := by
  rw [documentBraces] at h
  split_ifs at h
  · apply braced_steps hnested h
  · simp only [runs_bind, runs_rest, and_assoc, exists_and_left, exists_eq_left] at h
    split at h
    · simp only [runs_bind, runs_skip, runs_discard, exists_eq_left, exists_const] at h
      obtain ⟨found, hpast⟩ := h
      apply Relation.ReflTransGen.head (.pass s _ 2)
      apply skipPast_steps hpast
    · obtain rfl := runs_skip.mp h
      apply Steps.pass

theorem document_steps (hnested : context.nested.Traced) {budget : Nat} {u : Unit}
    (h : Runs (document context budget) s u s') :
  Steps (s, []) (s', [])
  := by
  induction budget generalizing s with
  | zero => simp [document] at h
  | succ budget ih =>
    simp only [document, runs_bind, runs_discard, runs_takeWhile, runs_rest, and_assoc,
      exists_and_left, exists_eq_left, exists_const] at h
    apply Relation.ReflTransGen.head (.pass s _ _)
    split at h
    · obtain ⟨-, rfl⟩ := runs_pure.mp h
      apply Relation.ReflTransGen.refl
    · next c later hrest =>
      split at h
      · next hc =>
        have hopening := congrArg List.head? hrest
        rw [hc] at hopening
        simp only [runs_bind] at h
        obtain ⟨_, t, htag, h⟩ := h
        apply (documentTag_steps hnested hopening htag).trans (ih h)
      · simp only [runs_bind] at h
        obtain ⟨_, t, hbraces, h⟩ := h
        apply (documentBraces_steps hnested hbraces).trans (ih h)

theorem source_steps (hnested : context.nested.Traced) {u : Unit}
    (h : Runs (source context) s u s') :
  Steps (s, []) (s', [])
  := by
  rw [source] at h
  split_ifs at h
  · simp only [runs_bind] at h
    obtain ⟨_, t, hfront, h⟩ := h
    apply (frontmatter_steps hfront).trans (document_steps hnested h)
  · apply document_steps hnested h
  · apply script_steps hnested h

end UtilityClasses.Scan

namespace UtilityClasses

/-- The markup of a source that could be read is what some moves have found, its elements
ordered by their positions. -/
theorem Markup.exists_steps_of_parse {dialect : Dialect} {text : String} {markup : Markup}
    (h : Markup.parse dialect text = .ok markup) :
  ∃ found : Scan.State,
    Scan.Steps (Scan.State.initial text.toList, []) (found, []) ∧
    markup.elements =
      found.elements.toList.mergeSort (fun a b => a.span.start ≤ b.span.start) ∧
    markup.arena = found.arena
  := by
  obtain ⟨found, hrun, rfl⟩ := parse_eq_ok_iff_runs.mp h
  use found, Scan.source_steps (Scan.nested_traced dialect _) hrun

end UtilityClasses
