import UtilityClasses.Cursor.Source
import UtilityClasses.Proofs.Cursor.Finds

/-!
# Passing over text

Names, strings, comments and the like are passed over, and nothing is stored. `Passes x` says so of
the reading `x`: it ends inside the source, no earlier than it started, with the expressions that
had been found.
-/

namespace UtilityClasses.Cursor

open Text (byteSize)

variable {α β σ : Type} {x y : Reading α} {f : α → Reading β} {source : List Char} {s t u : State}

/-! ### Looking -/

/-- The reading stays where it is. -/
def Looks (x : Reading α) : Prop :=
  ∀ ⦃source s a t⦄, x source s = .ok (a, t) → t = s

theorem looks_pure {a : α} :
  Looks (pure a)
  := by
  rintro _ _ _ _ ⟨⟩
  rfl

theorem looks_throw {halt : Halt} :
  Looks (throw halt : Reading α)
  := nofun

theorem Looks.bind (hx : Looks x) (hf : ∀ a, Looks (f a)) :
  Looks (x >>= f)
  := by
  intro source s b u h
  obtain ⟨a, t, hrun, h⟩ := exists_of_bind h
  rw [hf a h, hx hrun]

theorem looks_position :
  Looks position
  := by
  rintro _ _ _ _ ⟨⟩
  rfl

theorem looks_read :
  Looks (read : Reading (List Char))
  := by
  rintro _ _ _ _ ⟨⟩
  rfl

theorem looks_byteAhead {count : Nat} :
  Looks (byteAhead count)
  := looks_read.bind fun _ => looks_position.bind fun _ => looks_pure

theorem looks_atEnd :
  Looks atEnd
  := by
  rintro _ _ _ _ ⟨⟩
  rfl

theorem looks_slice {start stop : Nat} :
  Looks (slice start stop)
  := by
  rw [slice]
  refine looks_read.bind fun source => ?_
  split
  · split
    · exact looks_pure
    · exact looks_throw
  · exact looks_throw

theorem looks_sliceFrom {start : Nat} :
  Looks (sliceFrom start)
  := looks_position.bind fun _ => looks_slice

theorem looks_ahead :
  Looks ahead
  := by
  have hsize : Looks size := by
    rintro _ _ _ _ ⟨⟩
    rfl
  exact looks_position.bind fun _ => hsize.bind fun _ => looks_slice.bind fun _ => looks_pure

theorem looks_startsWith {text : List Char} :
  Looks (startsWith text)
  := looks_ahead.bind fun _ => looks_pure

theorem looks_startsWithFolded {text : List Char} :
  Looks (startsWithFolded text)
  := looks_ahead.bind fun _ => looks_pure

theorem looks_spanFrom {start : Nat} :
  Looks (spanFrom start)
  := looks_position.bind fun _ => looks_pure

theorem looks_fail {cause : SourceError.Cause} {start : Nat} :
  Looks (fail cause start : Reading α)
  := looks_spanFrom.bind fun _ => looks_throw

/-! ### Going on -/

/-- The second state is one inside the source in which the cursor is no earlier than in the first,
with the same expressions. -/
structure State.Ahead (source : List Char) (s t : State) : Prop where
  inside : t.pos ≤ byteSize source
  le : s.pos ≤ t.pos
  arena : t.arena = s.arena

theorem State.Ahead.refl (h : s.pos ≤ byteSize source) :
  State.Ahead source s s
  := ⟨h, Nat.le_refl _, rfl⟩

theorem State.Ahead.trans (h : State.Ahead source s t) (h' : State.Ahead source t u) :
  State.Ahead source s u
  := ⟨h'.inside, Nat.le_trans h.le h'.le, h'.arena.trans h.arena⟩

/-- The reading goes on inside the source and stores no expression. -/
def Passes (x : Reading α) : Prop :=
  ∀ ⦃source s a t⦄, s.pos ≤ byteSize source → x source s = .ok (a, t) → State.Ahead source s t

theorem Looks.passes (hx : Looks x) :
  Passes x
  := by
  intro source s a t hs h
  obtain rfl := hx h
  exact .refl hs

theorem passes_pure {a : α} :
  Passes (pure a)
  := looks_pure.passes

theorem passes_throw {halt : Halt} :
  Passes (throw halt : Reading α)
  := looks_throw.passes

theorem passes_fail {cause : SourceError.Cause} {start : Nat} :
  Passes (fail cause start : Reading α)
  := looks_fail.passes

theorem Passes.bind (hx : Passes x) (hf : ∀ a, Passes (f a)) :
  Passes (x >>= f)
  := by
  intro source s b u hs h
  obtain ⟨a, t, hrun, h⟩ := exists_of_bind h
  have ht := hx hs hrun
  exact ht.trans (hf a ht.inside h)

theorem Looks.bindPasses (hx : Looks x) (hf : ∀ a, Passes (f a)) :
  Passes (x >>= f)
  := hx.passes.bind hf

theorem Passes.ite {p : Prop} [Decidable p] (hx : Passes x) (hy : Passes y) :
  Passes (if p then x else y)
  := by
  split
  · exact hx
  · exact hy

theorem Passes.discard (hx : Passes x) :
  Passes (discard x)
  := by
  rw [← bind_pure (Functor.discard x), Scan.discard_bind]
  exact hx.bind fun _ => passes_pure

/-- A loop goes on if each of its rounds does. -/
theorem Passes.rounds {round : σ → Reading (Round σ α)} (hround : ∀ next, Passes (round next))
    (start : σ) :
  Passes (Cursor.rounds round start)
  := by
  intro source s a t hs h
  revert hs
  apply rounds_induct h (P := fun _ u => u.pos ≤ byteSize source → State.Ahead source u t)
  · exact fun _ _ hrun hu => hround _ hu hrun
  · intro _ _ _ _ hrun hrest hu
    have hahead := hround _ hu hrun
    exact hahead.trans (hrest hahead.inside)

/-! ### Moving -/

/-- The cursor is put only inside the source. -/
theorem ok_of_moveTo {pos : Nat} {u' : Unit} (h : moveTo pos source s = .ok (u', t)) :
  pos ≤ byteSize source ∧ t = { s with pos := pos }
  := by
  rw [moveTo_eq_ite] at h
  split at h
  · next hcut =>
    cases h
    obtain ⟨⟨before, after⟩, hcut⟩ := Option.isSome_iff_exists.mp hcut
    obtain ⟨rfl, rfl⟩ := Text.eq_append_of_cutAt hcut
    exact ⟨by simp, rfl⟩
  · cases h

/-- The cursor is put back to where it was, or further on. -/
theorem State.Ahead.moveTo (h : State.Ahead source s t) {pos : Nat} {u' : Unit}
    (hle : s.pos ≤ pos) (hmove : Cursor.moveTo pos source t = .ok (u', u)) :
  State.Ahead source s u
  := by
  obtain ⟨hinside, rfl⟩ := ok_of_moveTo hmove
  exact ⟨hinside, hle, h.arena⟩

/-- The cursor is moved as far as that is possible inside the source. -/
theorem ok_of_advanceBy {count : Nat} {u' : Unit}
    (h : advanceBy count source s = .ok (u', t)) :
  t = { s with pos := min (s.pos + count) (byteSize source) }
  := by
  obtain ⟨_, _, ⟨⟩, h⟩ := exists_of_bind h
  obtain ⟨_, _, ⟨⟩, h⟩ := exists_of_bind h
  exact (ok_of_moveTo h).2

theorem passes_advanceBy {count : Nat} :
  Passes (advanceBy count)
  := by
  intro source s _ t hs h
  obtain rfl := ok_of_advanceBy h
  exact ⟨Nat.min_le_right _ _, Nat.le_min.mpr ⟨Nat.le_add_right _ _, hs⟩, rfl⟩

theorem passes_advance :
  Passes advance
  := passes_advanceBy

theorem passes_advanceChar :
  Passes advanceChar
  := looks_byteAhead.bindPasses fun _ => passes_advanceBy

/-- The cursor is moved by the length of the longest run of bytes of a class. -/
theorem ok_of_eatWhile {kind : UInt8 → Bool} {u' : Unit}
    (h : eatWhile kind source s = .ok (u', t)) :
  s.pos + (((encode source).drop s.pos).takeWhile kind).length ≤ byteSize source ∧
    t = { s with pos := s.pos + (((encode source).drop s.pos).takeWhile kind).length }
  := by
  obtain ⟨_, _, ⟨⟩, h⟩ := exists_of_bind h
  obtain ⟨_, _, ⟨⟩, h⟩ := exists_of_bind h
  exact ok_of_moveTo h

theorem passes_eatWhile {kind : UInt8 → Bool} :
  Passes (eatWhile kind)
  := by
  intro source s _ t _ h
  obtain ⟨hinside, rfl⟩ := ok_of_eatWhile h
  exact ⟨hinside, Nat.le_add_right _ _, rfl⟩

theorem passes_eatSpacing :
  Passes eatSpacing
  := passes_eatWhile

/-- The cursor is put at an offset that is counted from where it is. -/
theorem passes_moveOn {count : Nat} :
  Passes (do moveTo ((← position) + count))
  := by
  intro source s _ t hs h
  obtain ⟨_, _, ⟨⟩, h⟩ := exists_of_bind h
  exact (State.Ahead.refl hs).moveTo (Nat.le_add_right _ _) h

theorem passes_eatText {text : List Char} :
  Passes (eatText text)
  := looks_startsWith.bindPasses fun _ =>
    .ite (passes_advanceBy.bind fun _ => passes_pure) passes_pure

theorem passes_skipPast {text : List Char} :
  Passes (skipPast text)
  := by
  refine looks_ahead.bindPasses fun bytes => ?_
  split
  · next offset _ =>
    intro source s _ t hs h
    obtain ⟨_, _, ⟨⟩, h⟩ := exists_of_bind h
    obtain ⟨_, _, hmove, ⟨⟩⟩ := exists_of_bind h
    exact (State.Ahead.refl hs).moveTo (by omega) hmove
  · intro source s _ t hs h
    obtain ⟨_, _, ⟨⟩, h⟩ := exists_of_bind h
    obtain ⟨_, _, hmove, ⟨⟩⟩ := exists_of_bind h
    exact (State.Ahead.refl hs).moveTo hs hmove

/-- A text that is found is passed as a whole. -/
theorem le_of_skipPast {text : List Char} (h : skipPast text source s = .ok (true, t)) :
  s.pos + (encode text).length ≤ t.pos
  := by
  obtain ⟨bytes, u, hahead, hrest⟩ := exists_of_bind h
  obtain rfl := looks_ahead hahead
  cases hfirst : firstMatch (encode text) bytes with
  | none =>
    rw [hfirst] at hrest
    obtain ⟨_, _, ⟨⟩, hrest⟩ := exists_of_bind hrest
    obtain ⟨_, _, -, ⟨⟩⟩ := exists_of_bind hrest
  | some offset =>
    rw [hfirst] at hrest
    obtain ⟨_, _, ⟨⟩, hrest⟩ := exists_of_bind hrest
    obtain ⟨_, _, hmove, ⟨⟩⟩ := exists_of_bind hrest
    obtain ⟨-, rfl⟩ := ok_of_moveTo hmove
    dsimp only
    omega

theorem passes_seek {stops : List UInt8} :
  Passes (seek stops)
  := by
  refine looks_ahead.bindPasses fun bytes => ?_
  rw [← bind_assoc]
  exact passes_moveOn.bind fun _ => looks_byteAhead.passes

theorem passes_eatLine :
  Passes eatLine
  := passes_seek.discard

/-- The cursor goes back to where it was. -/
theorem State.Ahead.back (h : State.Ahead source s t) {a b : α}
    (hback : (do Cursor.moveTo s.pos; return a) source t = .ok (b, u)) :
  State.Ahead source s u
  := by
  obtain ⟨_, _, hmove, ⟨⟩⟩ := exists_of_bind hback
  exact h.moveTo (Nat.le_refl _) hmove

/-- The cursor goes on if a test succeeds, and otherwise it goes back to where it was. -/
theorem Passes.orBack {b : β} {g : α → Reading β} {p : α → Prop} [DecidablePred p]
    (hx : Passes x) (hg : ∀ a, Passes (g a)) :
  Passes (do
    let start ← position
    let a ← x
    if p a then g a
    else
      moveTo start
      return b)
  := by
  intro source s _ t hs h
  obtain ⟨_, _, ⟨⟩, h⟩ := exists_of_bind h
  obtain ⟨a, _, hrun, h⟩ := exists_of_bind h
  have hahead := hx hs hrun
  split at h
  · exact hahead.trans (hg a hahead.inside h)
  · exact hahead.back h

/-! ### Names, strings, comments and regular expressions -/

theorem passes_nameRound :
  Passes nameRound
  := looks_byteAhead.bindPasses fun _ => .ite (passes_advanceChar.bind fun _ => passes_pure)
    (.ite (passes_advance.bind fun _ => passes_pure) passes_pure)

theorem passes_eatName :
  Passes eatName
  := .rounds (fun _ => passes_nameRound) ()

theorem passes_stringRound {quote : UInt8} {start : Nat} :
  Passes (stringRound quote start)
  := by
  have hchar : Passes (do advanceChar; return .again () : Reading (Round Unit Span)) :=
    passes_advanceChar.bind fun _ => passes_pure
  rw [stringRound]
  refine passes_seek.bind fun _ => .ite ?_ (.ite ?_ passes_fail)
  · exact passes_advance.bind fun _ => looks_byteAhead.bindPasses fun _ =>
      looks_byteAhead.bindPasses fun _ => .ite (passes_advance.bind fun _ => hchar) hchar
  · exact passes_advance.bind fun _ => looks_spanFrom.bindPasses fun _ => passes_pure

theorem passes_skipString :
  Passes skipString
  := looks_position.bindPasses fun _ => looks_byteAhead.bindPasses fun _ =>
    passes_advance.bind fun _ => .rounds (fun _ => passes_stringRound) ()

theorem passes_skipComment :
  Passes skipComment
  := by
  refine looks_byteAhead.bindPasses fun _ => .ite (looks_byteAhead.bindPasses fun _ =>
    .ite ?_ (.ite ?_ passes_pure)) passes_pure
  · exact passes_eatLine.bind fun _ => passes_pure
  · exact looks_position.bindPasses fun _ => passes_advanceBy.bind fun _ =>
      passes_skipPast.bind fun _ => .ite passes_pure passes_fail

theorem passes_skipTrivia :
  Passes skipTrivia
  := .rounds (fun _ => passes_eatSpacing.bind fun _ => passes_skipComment.bind fun _ =>
    .ite passes_pure passes_pure) ()

theorem passes_regexRound {inClass : Bool} :
  Passes (regexRound inClass)
  := by
  rw [regexRound]
  refine looks_byteAhead.bindPasses fun _ => .ite ?_ (.ite ?_ (.ite ?_ (.ite ?_ ?_)))
  · exact passes_advance.bind fun _ => looks_byteAhead.bindPasses fun _ =>
      looks_atEnd.bindPasses fun _ => .ite passes_pure
        (passes_advanceChar.bind fun _ => passes_pure)
  · exact passes_advance.bind fun _ => passes_pure
  · exact passes_advance.bind fun _ => passes_pure
  · exact passes_advance.bind fun _ => passes_eatWhile.bind fun _ => passes_pure
  · exact looks_atEnd.bindPasses fun _ => .ite passes_pure
      (passes_advanceChar.bind fun _ => passes_pure)

theorem passes_skipRegex :
  Passes skipRegex
  := by
  have hregex : Passes (do advance; rounds regexRound false) :=
    passes_advance.bind fun _ => .rounds (fun _ => passes_regexRound) false
  have h : Passes (do
      let start ← position
      let closed ← (do advance; rounds regexRound false)
      if closed then return true
      else
        moveTo start
        return false) :=
    hregex.orBack fun _ => passes_pure
  rw [skipRegex]
  simpa only [bind_assoc] using h

/-! ### Values and words -/

theorem passes_quotedValue {quote : Quote} {delimiter : Char} {name : String} :
  Passes (quotedValue quote delimiter name)
  := looks_position.bindPasses fun _ => passes_advance.bind fun _ => passes_skipPast.bind fun _ =>
    .ite (looks_position.bindPasses fun _ => looks_slice.bindPasses fun _ =>
      looks_spanFrom.bindPasses fun _ => passes_pure) passes_fail

theorem passes_unquotedValue {name : String} :
  Passes (unquotedValue name)
  := by
  have hround : Passes bareRound := looks_byteAhead.bindPasses fun _ =>
    looks_atEnd.bindPasses fun _ => looks_byteAhead.bindPasses fun _ =>
      .ite passes_pure (passes_advanceChar.bind fun _ => passes_pure)
  exact looks_position.bindPasses fun _ => (Passes.rounds (fun _ => hround) ()).bind fun _ =>
    looks_position.bindPasses fun _ => .ite passes_throw (looks_sliceFrom.bindPasses fun _ =>
      looks_spanFrom.bindPasses fun _ => passes_pure)

theorem passes_eatExtends :
  Passes eatExtends
  := looks_startsWith.bindPasses fun _ =>
    .ite (looks_position.bindPasses fun _ => passes_eatName.bind fun _ =>
      looks_sliceFrom.bindPasses fun _ => passes_eatSpacing.bind fun _ =>
        looks_byteAhead.bindPasses fun _ => passes_pure) passes_pure

theorem passes_opensTypeParameters :
  Passes opensTypeParameters
  := by
  intro source s _ t hs h
  obtain ⟨_, _, ⟨⟩, h⟩ := exists_of_bind h
  obtain ⟨_, u, hspacing, h⟩ := exists_of_bind h
  have hahead := passes_eatSpacing hs hspacing
  obtain ⟨_, _, ⟨⟩, h⟩ := exists_of_bind h
  obtain ⟨_, _, ⟨⟩, h⟩ := exists_of_bind h
  split at h
  · exact hahead.back h
  · split at h
    · obtain ⟨_, v, hextends, h⟩ := exists_of_bind h
      exact (hahead.trans (passes_eatExtends hahead.inside hextends)).back h
    · exact hahead.back h

theorem passes_propertyName :
  Passes propertyName.run
  := by
  rw [propertyName]
  simp only [Scan.run_lift_bind, Scan.run_guard_bind, Scan.run_ite]
  have hname (start : Nat) : Passes (do
      let b ← current
      if isNameStart b then
        eatName
        let name ← sliceFrom start
        (pure (String.ofList name) : Trial String).run
      else
        return none) :=
    looks_byteAhead.bindPasses fun _ => .ite (passes_eatName.bind fun _ =>
      looks_sliceFrom.bindPasses fun _ => passes_pure) passes_pure
  exact looks_position.bindPasses fun start => looks_byteAhead.bindPasses fun _ =>
    .ite (passes_advance.bind fun _ => hname start) (hname start)

end UtilityClasses.Cursor
