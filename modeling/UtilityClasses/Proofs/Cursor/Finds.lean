import UtilityClasses.Cursor.Expression
import UtilityClasses.Cursor.Source
import UtilityClasses.Proofs.Cursor.Agreement

/-!
# What a step does to the finds

A relation between an earlier state and a later one that does not look at where the cursor is, and
that holds from step to step, is respected by everything that only moves the cursor. The two of
interest are that nothing has been found, and that what has been found has only been added to.
-/

namespace UtilityClasses.Cursor

variable {α β σ : Type} {R : State → State → Prop} {x y : Reading α} {f : α → Reading β}
  {source : List Char} {s t u : State}

/-! ### Runs that succeed -/

theorem exists_of_bind {b : β} (h : (x >>= f) source s = .ok (b, u)) :
  ∃ a t, x source s = .ok (a, t) ∧ f a source t = .ok (b, u)
  := by
  rw [bind_apply] at h
  split at h
  · next a t hrun => exact ⟨a, t, hrun, h⟩
  · cases h

/-- What holds of the last round of a loop, and of every other one if it holds of the next, holds of
the first. -/
theorem rounds_induct {round : σ → Reading (Round σ α)} {start : σ} {result : α}
    {P : σ → State → Prop} (h : rounds round start source s = .ok (result, t))
    (done : ∀ last u, round last source u = .ok (.done result, t) → P last u)
    (again : ∀ now u next u', round now source u = .ok (.again next, u') → P next u' → P now u) :
  P start s
  := by
  -- The induction is on the number of bytes that are left, as the recursion is.
  induction start, s using rounds.induct round source with
  | case1 start s halt hrun =>
    rw [rounds, hrun] at h
    cases h
  | case2 start s result' s' hrun =>
    rw [rounds, hrun] at h
    cases h
    exact done start s hrun
  | case3 start s next s' hrun hlt ih =>
    rw [rounds, hrun] at h
    simp only [if_pos hlt] at h
    exact again start s next s' hrun (ih h)
  | case4 start s next s' hrun hlt =>
    rw [rounds, hrun] at h
    simp only [if_neg hlt] at h
    cases h

/-! ### Relations between states -/

/-- A relation between an earlier state and a later one that does not look at where the cursor
is. -/
class IgnoresPlace (R : State → State → Prop) : Prop where
  moved (s : State) (pos : Nat) : R s { s with pos := pos }
  trans {s t u : State} (h : R s t) (h' : R t u) : R s u

theorem IgnoresPlace.refl [IgnoresPlace R] (s : State) :
  R s s
  := moved s s.pos

/-- Nothing has been found. -/
structure State.Untouched (s t : State) : Prop where
  elements : t.elements = s.elements
  arena : t.arena = s.arena

/-- Elements and expressions have only been added to those that had been found. -/
structure State.Extended (s t : State) : Prop where
  elements : s.elements.toList <+: t.elements.toList
  arena : s.arena.toList <+: t.arena.toList

instance : IgnoresPlace State.Untouched where
  moved _ _ := ⟨rfl, rfl⟩
  trans h h' := ⟨h'.elements.trans h.elements, h'.arena.trans h.arena⟩

instance : IgnoresPlace State.Extended where
  moved _ _ := ⟨List.prefix_rfl, List.prefix_rfl⟩
  trans h h' := ⟨h.elements.trans h'.elements, h.arena.trans h'.arena⟩

/-- The relation holds between the states in which a step starts and ends. -/
def Respects (R : State → State → Prop) (x : Reading α) : Prop :=
  ∀ ⦃source s a t⦄, x source s = .ok (a, t) → R s t

/-- The step finds nothing. -/
abbrev FindsNothing (x : Reading α) : Prop :=
  Respects State.Untouched x

/-- The step only adds to what has been found. -/
abbrev Appends (x : Reading α) : Prop :=
  Respects State.Extended x

/-! ### Steps in turn -/

theorem respects_throw {halt : Halt} :
  Respects R (throw halt : Reading α)
  := fun _ _ _ _ h => by cases h

theorem Respects.ite {p : Prop} [Decidable p] (hx : Respects R x) (hy : Respects R y) :
  Respects R (if p then x else y)
  := by
  split
  · exact hx
  · exact hy

section Steps

variable [IgnoresPlace R]

theorem respects_pure {a : α} :
  Respects R (pure a)
  := by
  rintro source s _ _ ⟨⟩
  exact IgnoresPlace.refl s

theorem Respects.bind (hx : Respects R x) (hf : ∀ a, Respects R (f a)) :
  Respects R (x >>= f)
  := by
  intro source s b u h
  obtain ⟨a, t, hrun, h⟩ := exists_of_bind h
  exact IgnoresPlace.trans (hx hrun) (hf a h)

theorem Respects.discard (hx : Respects R x) :
  Respects R (discard x)
  := by
  rw [← bind_pure (Functor.discard x), Scan.discard_bind]
  exact hx.bind fun _ => respects_pure

/-- A step that finds something in any case. -/
theorem Respects.some (hx : Respects R x) :
  Respects R (some <$> x)
  := by
  rw [map_eq_pure_bind]
  exact hx.bind fun _ => respects_pure

/-- One step of a trial and those behind it. -/
theorem Respects.tries {x : Trial α} {f : α → Trial β} (hx : Respects R x.run)
    (hf : ∀ a, Respects R (f a).run) :
  Respects R (x >>= f).run
  := by
  rw [OptionT.run_bind]
  apply hx.bind
  intro found
  cases found with
  | none => exact respects_pure
  | some a => exact hf a

/-- A loop respects what each of its rounds respects. -/
theorem Respects.rounds {round : σ → Reading (Round σ α)} (hround : ∀ next, Respects R (round next))
    (start : σ) :
  Respects R (Cursor.rounds round start)
  := by
  intro source s a t h
  apply rounds_induct h
  · exact fun _ _ hrun => hround _ hrun
  · exact fun _ _ _ _ hrun hrest => IgnoresPlace.trans (hround _ hrun) hrest

theorem Respects.trialRounds {round : σ → Trial (Round σ α)}
    (hround : ∀ next, Respects R (round next).run) (start : σ) :
  Respects R (Trial.rounds round start).run
  := by
  apply Respects.rounds
  intro next
  rw [Trial.round]
  apply (hround next).bind
  rintro (_ | _ | _) <;> exact respects_pure

/-! ### Looking at bytes and moving -/

theorem respects_position :
  Respects R position
  := by
  rintro source s _ _ ⟨⟩
  exact IgnoresPlace.refl s

theorem respects_read :
  Respects R (read : Reading (List Char))
  := by
  rintro source s _ _ ⟨⟩
  exact IgnoresPlace.refl s

theorem respects_size :
  Respects R size
  := by
  rintro source s _ _ ⟨⟩
  exact IgnoresPlace.refl s

theorem respects_atEnd :
  Respects R atEnd
  := respects_size.bind fun _ => respects_position.bind fun _ => respects_pure

theorem respects_byteAhead {count : Nat} :
  Respects R (byteAhead count)
  := respects_read.bind fun _ => respects_position.bind fun _ => respects_pure

theorem respects_current :
  Respects R current
  := respects_byteAhead

theorem respects_peek :
  Respects R peek
  := respects_byteAhead

theorem respects_peekTwo :
  Respects R peekTwo
  := respects_byteAhead

theorem moveTo_eq_ite (pos : Nat) (source : List Char) (s : State) :
  moveTo pos source s =
    if (Text.cutAt pos source).isSome then .ok ((), { s with pos := pos }) else .error .misplaced
  := by
  rw [moveTo, read_bind_apply]
  split <;> rfl

theorem respects_moveTo {pos : Nat} :
  Respects R (moveTo pos)
  := by
  intro source s _ _ h
  rw [moveTo_eq_ite] at h
  split at h
  · cases h
    exact IgnoresPlace.moved s pos
  · cases h

theorem respects_advanceBy {count : Nat} :
  Respects R (advanceBy count)
  := respects_position.bind fun _ => respects_size.bind fun _ => respects_moveTo

theorem respects_advance :
  Respects R advance
  := respects_advanceBy

theorem respects_advanceChar :
  Respects R advanceChar
  := respects_current.bind fun _ => respects_advanceBy

theorem respects_eatWhile {kind : UInt8 → Bool} :
  Respects R (eatWhile kind)
  := respects_position.bind fun _ => respects_read.bind fun _ => respects_moveTo

theorem respects_eatSpacing :
  Respects R eatSpacing
  := respects_eatWhile

theorem respects_slice {start stop : Nat} :
  Respects R (slice start stop)
  := by
  rw [slice]
  refine respects_read.bind fun source => ?_
  split
  · split
    · exact respects_pure
    · exact respects_throw
  · exact respects_throw

theorem respects_sliceFrom {start : Nat} :
  Respects R (sliceFrom start)
  := respects_position.bind fun _ => respects_slice

theorem respects_ahead :
  Respects R ahead
  := respects_position.bind fun _ => respects_size.bind fun _ => respects_slice.bind fun _ =>
    respects_pure

theorem respects_startsWith {text : List Char} :
  Respects R (startsWith text)
  := respects_ahead.bind fun _ => respects_pure

theorem respects_startsWithFolded {text : List Char} :
  Respects R (startsWithFolded text)
  := respects_ahead.bind fun _ => respects_pure

theorem respects_eatText {text : List Char} :
  Respects R (eatText text)
  := respects_startsWith.bind fun _ =>
    .ite (respects_advanceBy.bind fun _ => respects_pure) respects_pure

theorem respects_skipPast {text : List Char} :
  Respects R (skipPast text)
  := by
  rw [skipPast]
  refine respects_ahead.bind fun bytes => ?_
  split
  · exact respects_position.bind fun _ => respects_moveTo.bind fun _ => respects_pure
  · exact respects_size.bind fun _ => respects_moveTo.bind fun _ => respects_pure

theorem respects_seek {stops : List UInt8} :
  Respects R (seek stops)
  := respects_ahead.bind fun _ => respects_position.bind fun _ => respects_moveTo.bind fun _ =>
    respects_current

theorem respects_eatLine :
  Respects R eatLine
  := respects_seek.discard

theorem respects_spanFrom {start : Nat} :
  Respects R (spanFrom start)
  := respects_position.bind fun _ => respects_pure

theorem respects_fail {cause : SourceError.Cause} {start : Nat} :
  Respects R (fail cause start : Reading α)
  := respects_spanFrom.bind fun _ => respects_throw

/-! ### Names, strings, comments and regular expressions -/

theorem respects_eatName :
  Respects R eatName
  := by
  apply Respects.rounds
  intro _
  refine respects_current.bind fun _ => .ite ?_ (.ite ?_ respects_pure)
  · exact respects_advanceChar.bind fun _ => respects_pure
  · exact respects_advance.bind fun _ => respects_pure

theorem respects_skipString :
  Respects R skipString
  := by
  refine respects_position.bind fun start => respects_current.bind fun quote =>
    respects_advance.bind fun _ => .rounds (fun _ => ?_) ()
  rw [stringRound]
  refine respects_seek.bind fun _ => .ite ?_ (.ite ?_ respects_fail)
  · refine respects_advance.bind fun _ => respects_current.bind fun _ => respects_peek.bind
      fun _ => .ite (respects_advance.bind fun _ => ?_) ?_
    all_goals exact respects_advanceChar.bind fun _ => respects_pure
  · exact respects_advance.bind fun _ => respects_spanFrom.bind fun _ => respects_pure

theorem respects_skipComment :
  Respects R skipComment
  := by
  refine respects_current.bind fun _ => .ite (respects_peek.bind fun _ => .ite ?_ (.ite ?_ ?_)) ?_
  · exact respects_eatLine.bind fun _ => respects_pure
  · exact respects_position.bind fun _ => respects_advanceBy.bind fun _ =>
      respects_skipPast.bind fun _ => .ite respects_pure respects_fail
  · exact respects_pure
  · exact respects_pure

theorem respects_skipTrivia :
  Respects R skipTrivia
  := .rounds (fun _ => respects_eatSpacing.bind fun _ => respects_skipComment.bind fun _ =>
    .ite respects_pure respects_pure) ()

theorem respects_regexRound {inClass : Bool} :
  Respects R (regexRound inClass)
  := by
  rw [regexRound]
  refine respects_current.bind fun _ => .ite ?_ (.ite ?_ (.ite ?_ (.ite ?_ ?_)))
  · refine respects_advance.bind fun _ => respects_current.bind fun _ => respects_atEnd.bind
      fun _ => .ite respects_pure ?_
    exact respects_advanceChar.bind fun _ => respects_pure
  · exact respects_advance.bind fun _ => respects_pure
  · exact respects_advance.bind fun _ => respects_pure
  · exact respects_advance.bind fun _ => respects_eatWhile.bind fun _ => respects_pure
  · refine respects_atEnd.bind fun _ => .ite respects_pure ?_
    exact respects_advanceChar.bind fun _ => respects_pure

theorem respects_skipRegex :
  Respects R skipRegex
  := respects_position.bind fun _ => respects_advance.bind fun _ =>
    (Respects.rounds (fun _ => respects_regexRound) false).bind fun _ =>
      .ite respects_pure (respects_moveTo.bind fun _ => respects_pure)

/-! ### Values and words -/

theorem respects_quotedValue {quote : Quote} {delimiter : Char} {name : String} :
  Respects R (quotedValue quote delimiter name)
  := respects_position.bind fun _ => respects_advance.bind fun _ => respects_skipPast.bind fun _ =>
    .ite (respects_position.bind fun _ => respects_slice.bind fun _ => respects_spanFrom.bind
      fun _ => respects_pure) respects_fail

theorem respects_unquotedValue {name : String} :
  Respects R (unquotedValue name)
  := by
  have hround : Respects R bareRound := respects_current.bind fun _ => respects_atEnd.bind fun _ =>
    respects_peek.bind fun _ =>
      .ite respects_pure (respects_advanceChar.bind fun _ => respects_pure)
  exact respects_position.bind fun _ => (Respects.rounds (fun _ => hround) ()).bind fun _ =>
    respects_position.bind fun _ => .ite respects_throw (respects_sliceFrom.bind fun _ =>
      respects_spanFrom.bind fun _ => respects_pure)

theorem respects_opensTypeParameters :
  Respects R opensTypeParameters
  := by
  have hextends : Respects R eatExtends := respects_startsWith.bind fun _ =>
    .ite (respects_position.bind fun _ => respects_eatName.bind fun _ => respects_sliceFrom.bind
      fun _ => respects_eatSpacing.bind fun _ => respects_current.bind fun _ => respects_pure)
      respects_pure
  have hback (pos : Nat) (verdict : Bool) : Respects R (do moveTo pos; return verdict) :=
    respects_moveTo.bind fun _ => respects_pure
  exact respects_position.bind fun pos => respects_eatSpacing.bind fun _ =>
    respects_current.bind fun _ => respects_position.bind fun _ => .ite (hback pos true)
      (.ite (hextends.bind fun _ => hback pos _) (hback pos false))

theorem respects_eatKeyword {word : List Char} :
  Respects R (eatKeyword word)
  := respects_startsWith.bind fun _ =>
    .ite (respects_position.bind fun _ => respects_eatName.bind fun _ => respects_sliceFrom.bind
      fun _ => .ite respects_pure (respects_moveTo.bind fun _ => respects_pure)) respects_pure

theorem respects_eatKeywords (words : List (List Char)) :
  Respects R (eatKeywords words)
  := by
  induction words with
  | nil => exact respects_pure
  | cons word words ih => exact respects_eatKeyword.bind fun _ => .ite respects_pure ih

theorem respects_eatUnary :
  Respects R eatUnary
  := by
  have hoperator : Respects R eatPrefixOperator := respects_current.bind fun _ =>
    respects_peek.bind fun _ => .ite (respects_advance.bind fun _ => respects_pure) respects_pure
  exact hoperator.bind fun _ => .ite respects_pure (respects_eatKeywords _)

theorem respects_atConditional :
  Respects R atConditional
  := respects_current.bind fun _ => respects_peek.bind fun _ => respects_peek.bind fun _ =>
    respects_peekTwo.bind fun _ => respects_pure

theorem respects_propertyName :
  Respects R propertyName.run
  := by
  rw [propertyName]
  simp only [Scan.run_lift_bind, Scan.run_guard_bind, Scan.run_ite]
  have hname (start : Nat) : Respects R (do
      let b ← current
      if isNameStart b then
        eatName
        let name ← sliceFrom start
        (pure (String.ofList name) : Trial String).run
      else
        return none) :=
    respects_current.bind fun _ => .ite (respects_eatName.bind fun _ => respects_sliceFrom.bind
      fun _ => respects_pure) respects_pure
  exact respects_position.bind fun start => respects_current.bind fun _ =>
    .ite (respects_advance.bind fun _ => hname start) (hname start)

end Steps

end UtilityClasses.Cursor
