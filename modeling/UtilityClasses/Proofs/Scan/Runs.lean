import Mathlib.Data.Option.Basic
import Mathlib.Tactic.Common
import UtilityClasses.Scan.Source

/-!
# Runs of a scan

`Runs x s a t` says that the step `x`, made in the state `s`, returns `a` and leaves the
state `t`; `Yields x s a t` says the same of a step that may find nothing it deals with. A
step that fails has no runs. The lemmas of this file take a run apart along the way in
which its step is put together.
-/

namespace UtilityClasses.Scan

/-- The step returns `a` and leaves the state `s'`. -/
def Runs {α : Type} (x : Scan α) (s : State) (a : α) (s' : State) : Prop :=
  x s = .ok (a, s')

/-- The step finds `a` and leaves the state `s'`. -/
def Yields {α : Type} (x : Attempt α) (s : State) (a : α) (s' : State) : Prop :=
  Runs x.run s (some a) s'

variable {α β : Type} {s s' : State} {a a' : α} {b : β}

/-! ### Steps in general -/

@[simp]
theorem runs_pure :
  Runs (pure a) s a' s' ↔ a' = a ∧ s' = s
  := by
  change (.ok (a, s) : Except Stop (α × State)) = .ok (a', s') ↔ _
  simp [eq_comm]

@[simp]
theorem runs_bind {x : Scan α} {f : α → Scan β} :
  Runs (x >>= f) s b s' ↔ ∃ a t, Runs x s a t ∧ Runs (f a) t b s'
  := by
  simp only [Runs, bind, StateT.bind, Except.bind]
  cases x s with
  | error _ => simp
  | ok p =>
    simp only [Except.ok.injEq]
    constructor
    · intro h
      use p.1, p.2, rfl, h
    · rintro ⟨_, _, rfl, h⟩
      apply h

@[simp]
theorem runs_map {x : Scan α} {f : α → β} :
  Runs (f <$> x) s b s' ↔ ∃ a, Runs x s a s' ∧ b = f a
  := by
  rw [map_eq_pure_bind, runs_bind]
  constructor
  · rintro ⟨a, t, h, h'⟩
    obtain ⟨rfl, rfl⟩ := runs_pure.mp h'
    use a, h
  · rintro ⟨a, h, rfl⟩
    use a, s', h
    simp

@[simp]
theorem runs_discard {x : Scan α} {u : PUnit} :
  Runs (discard x) s u s' ↔ ∃ a, Runs x s a s'
  := by
  apply Iff.trans runs_map
  simp

@[simp]
theorem runs_get {t : State} :
  Runs get s t s' ↔ t = s ∧ s' = s
  := by
  change (.ok (s, s) : Except Stop (State × State)) = .ok (t, s') ↔ _
  simp [eq_comm]

@[simp]
theorem runs_set {t : State} {u : PUnit} :
  Runs (set t) s u s' ↔ s' = t
  := by
  change (.ok (⟨⟩, t) : Except Stop (PUnit × State)) = .ok (u, s') ↔ _
  simp [eq_comm]

@[simp]
theorem runs_modify {f : State → State} {u : PUnit} :
  Runs (modify f) s u s' ↔ s' = f s
  := by
  change (.ok (⟨⟩, f s) : Except Stop (PUnit × State)) = .ok (u, s') ↔ _
  simp [eq_comm]

@[simp]
theorem not_runs_throw {stop : Stop} :
  ¬ Runs (throw stop : Scan α) s a s'
  := by
  simp [Runs, throw, throwThe, MonadExceptOf.throw, StateT.lift, bind, Except.bind]

@[simp]
theorem not_runs_exhaust :
  ¬ Runs (exhaust : Scan α) s a s'
  := not_runs_throw

@[simp]
theorem not_runs_fail {cause : SourceError.Cause} {start : Nat} :
  ¬ Runs (fail cause start : Scan α) s a s'
  := by
  simp [fail]

/-! ### Attempts in general -/

@[simp]
theorem yields_pure :
  Yields (pure a) s a' s' ↔ a' = a ∧ s' = s
  := by
  simp [Yields]

@[simp]
theorem yields_bind {x : Attempt α} {f : α → Attempt β} :
  Yields (x >>= f) s b s' ↔ ∃ a t, Yields x s a t ∧ Yields (f a) t b s'
  := by
  simp only [Yields, OptionT.run_bind, Option.elimM, runs_bind]
  constructor
  · rintro ⟨a, t, h, h'⟩
    cases a with
    | none => simp [Option.elim] at h'
    | some a => use a, t, h, h'
  · rintro ⟨a, t, h, h'⟩
    use some a, t, h, h'

@[simp]
theorem yields_lift {x : Scan α} :
  Yields (liftM x) s a s' ↔ Runs x s a s'
  := by
  change Runs (x >>= fun a => pure (some a)) s (some a) s' ↔ _
  simp

@[simp]
theorem yields_discard {x : Attempt α} {u : PUnit} :
  Yields (discard x) s u s' ↔ ∃ a, Yields x s a s'
  := by
  rw [discard, map_const, Function.comp_apply, map_eq_pure_bind, yields_bind]
  constructor
  · rintro ⟨a, t, h, h'⟩
    obtain ⟨-, rfl⟩ := yields_pure.mp h'
    use a, h
  · rintro ⟨a, h⟩
    use a, s', h
    simp

@[simp]
theorem not_yields_exhaust :
  ¬ Yields (exhaust : Scan (Option α)) s a s'
  := not_runs_exhaust

@[simp]
theorem not_yields_failure :
  ¬ Yields (failure : Attempt α) s a s'
  := by
  simp [Yields]

@[simp]
theorem yields_guard {p : Prop} [Decidable p] {u : Unit} :
  Yields (guard p : Attempt Unit) s u s' ↔ p ∧ s' = s
  := by
  by_cases h : p
  · simp [guard, h]
  · simp [guard, h]

/-! ### Moving forward -/

/-- The state in which `count` more characters have been passed. -/
def State.after (state : State) (count : Nat) : State :=
  { state with
    rest := state.rest.drop count
    pos := state.pos + Text.byteSize (state.rest.take count) }

@[simp]
theorem State.after_rest (state : State) (count : Nat) :
  (state.after count).rest = state.rest.drop count
  := rfl

@[simp]
theorem State.after_elements (state : State) (count : Nat) :
  (state.after count).elements = state.elements
  := rfl

@[simp]
theorem State.after_arena (state : State) (count : Nat) :
  (state.after count).arena = state.arena
  := rfl

@[simp]
theorem State.after_zero (state : State) :
  state.after 0 = state
  := by
  simp [State.after, Text.byteSize]

theorem State.after_after (state : State) (m n : Nat) :
  (state.after m).after n = state.after (m + n)
  := by
  simp [State.after, List.take_add, Nat.add_assoc]

/-- What is left after a first part of the text has been passed. -/
theorem State.after_length_rest {text later : List Char} (h : s.rest = text ++ later) :
  (s.after text.length).rest = later
  := by
  simp [h]

/-- Passing more than there is passes all of it. -/
theorem State.after_length_take (state : State) (count : Nat) :
  state.after (state.rest.take count).length = state.after count
  := by
  rcases Nat.le_total count state.rest.length with h | h
  · rw [List.length_take_of_le h]
  · rw [List.take_of_length_le h]
    simp [State.after, List.take_of_length_le h, List.drop_of_length_le h]

@[simp]
theorem runs_rest {text : List Char} :
  Runs rest s text s' ↔ text = s.rest ∧ s' = s
  := by
  simp only [rest, runs_map, runs_get]
  grind

@[simp]
theorem runs_position {pos : Nat} :
  Runs position s pos s' ↔ pos = s.pos ∧ s' = s
  := by
  simp only [position, runs_map, runs_get]
  grind

@[simp]
theorem runs_take {count : Nat} {text : List Char} :
  Runs (take count) s text s' ↔ text = s.rest.take count ∧ s' = s.after count
  := by
  simp [take, State.after, and_comm]

@[simp]
theorem runs_skip {count : Nat} {u : Unit} :
  Runs (skip count) s u s' ↔ s' = s.after count
  := by
  simp [skip]

theorem drop_length_takeWhile (kind : Char → Bool) (text : List Char) :
  text.drop (text.takeWhile kind).length = text.dropWhile kind
  := by
  have h : (text.takeWhile kind ++ text.dropWhile kind).drop (text.takeWhile kind).length =
      text.dropWhile kind := List.drop_left
  rwa [List.takeWhile_append_dropWhile] at h

theorem take_length_takeWhile (kind : Char → Bool) (text : List Char) :
  text.take (text.takeWhile kind).length = text.takeWhile kind
  := List.prefix_iff_eq_take.mp (List.takeWhile_prefix kind) |>.symm

/-- A run of characters of a class that does not reach the end of a text is followed by a
character that is not of the class. -/
theorem exists_takeWhile_append {kind : Char → Bool} {text : List Char}
    (h : text.dropWhile kind ≠ []) :
  ∃ c later, text = text.takeWhile kind ++ c :: later ∧ kind c = false
  := by
  use (text.dropWhile kind).head h, (text.dropWhile kind).tail
  constructor
  · rw [List.cons_head_tail, List.takeWhile_append_dropWhile]
  · apply List.head_dropWhile_not

@[simp]
theorem runs_takeWhile {kind : Char → Bool} {text : List Char} :
  Runs (takeWhile kind) s text s' ↔
    text = s.rest.takeWhile kind ∧ s' = s.after (s.rest.takeWhile kind).length
  := by
  simp only [takeWhile, runs_bind, runs_rest, runs_take]
  constructor
  · rintro ⟨_, _, ⟨rfl, rfl⟩, rfl, rfl⟩
    use take_length_takeWhile kind _
  · rintro ⟨rfl, rfl⟩
    use s.rest, s, ⟨rfl, rfl⟩, (take_length_takeWhile kind _).symm

@[simp]
theorem runs_spanFrom {start : Nat} {span : Span} :
  Runs (spanFrom start) s span s' ↔ span = ⟨start, s.pos⟩ ∧ s' = s
  := by
  simp only [spanFrom, runs_bind, runs_position, runs_pure]
  grind

@[simp]
theorem runs_record {element : Element} {u : Unit} :
  Runs (record element) s u s' ↔ s' = { s with elements := s.elements.push element }
  := runs_modify

@[simp]
theorem runs_store {shape : ExprShape} {span : Span} {node : Node} :
  Runs (store shape span) s node s' ↔
    node = ⟨s.arena.size, span⟩ ∧ s' = { s with arena := s.arena.push ⟨shape, span⟩ }
  := by
  change (.ok (⟨s.arena.size, span⟩, { s with arena := s.arena.push ⟨shape, span⟩ }) :
    Except Stop (Node × State)) = .ok (node, s') ↔ _
  simp [eq_comm]

/-! ### Lexemes -/

@[simp]
theorem runs_skipSpacing {u : Unit} :
  Runs skipSpacing s u s' ↔ s' = s.after (s.rest.takeWhile isSpacing).length
  := by
  simp [skipSpacing]

@[simp]
theorem runs_skipLine {u : Unit} :
  Runs skipLine s u s' ↔ s' = s.after (s.rest.takeWhile fun c => !isLineBreak c).length
  := by
  simp [skipLine]

@[simp]
theorem runs_skipTrivia {u : Unit} :
  Runs skipTrivia s u s' ↔ ∃ length, trivia s.rest = .closed length ∧ s' = s.after length
  := by
  simp only [skipTrivia, runs_bind, runs_rest]
  constructor
  · rintro ⟨_, _, ⟨rfl, rfl⟩, h⟩
    split at h
    · next length hlength => use length, hlength, runs_skip.mp h
    · simp at h
  · rintro ⟨length, hlength, rfl⟩
    use s.rest, s, ⟨rfl, rfl⟩
    simp [hlength]

theorem runs_skipPast {needle : List Char} {found : Bool} :
  Runs (skipPast needle) s found s' ↔
    (∃ before, offsetOf needle s.rest = some before ∧ found = true ∧
      s' = s.after (before + needle.length)) ∨
    (offsetOf needle s.rest = none ∧ found = false ∧ s' = s.after s.rest.length)
  := by
  simp only [skipPast, runs_bind, runs_rest]
  cases h : offsetOf needle s.rest with
  | none =>
    simp only [reduceCtorEq, false_and, exists_false, true_and, false_or]
    constructor
    · rintro ⟨_, _, ⟨rfl, rfl⟩, h'⟩
      simpa [h, and_comm] using h'
    · rintro ⟨rfl, rfl⟩
      use s.rest, s, ⟨rfl, rfl⟩
      simp [h]
  | some before =>
    simp only [Option.some.injEq, exists_eq_left', reduceCtorEq, false_and, or_false]
    constructor
    · rintro ⟨_, _, ⟨rfl, rfl⟩, h'⟩
      simpa [h, and_comm] using h'
    · rintro ⟨rfl, rfl⟩
      use s.rest, s, ⟨rfl, rfl⟩
      simp [h]

/-- A regular expression is passed, and otherwise nothing. -/
theorem runs_skipRegex {found : Bool} (h : Runs skipRegex s found s') :
  ∃ count, s' = s.after count ∧ if found then 0 < count else count = 0
  := by
  simp only [skipRegex, runs_bind, runs_rest] at h
  obtain ⟨_, _, ⟨rfl, rfl⟩, h⟩ := h
  split at h
  · simp only [runs_bind, runs_skip, runs_discard, runs_takeWhile, runs_pure] at h
    obtain ⟨_, _, rfl, _, _, ⟨_, _, rfl⟩, rfl, rfl⟩ := h
    rw [State.after_after]
    refine ⟨_, rfl, ?_⟩
    rw [if_pos rfl]
    omega
  · obtain ⟨rfl, rfl⟩ := runs_pure.mp h
    exact ⟨0, (State.after_zero _).symm, rfl⟩

/-- A string literal is its delimiter, its body and its delimiter. -/
theorem runs_stringLiteral {quote : Char} {body : List Char} {span : Span}
    (h : Runs (stringLiteral quote) s (body, span) s') (hquote : s.rest.head? = some quote) :
  s.rest = quote :: (body ++ quote :: s'.rest) ∧ span = ⟨s.pos, s'.pos⟩ ∧
    s' = s.after (body.length + 2)
  := by
  simp only [stringLiteral, runs_bind, runs_position, runs_skip, runs_rest, runs_take, and_assoc,
    exists_and_left, exists_eq_left, exists_const] at h
  split at h
  · next hclose =>
    obtain ⟨text, htext⟩ := List.head?_eq_some_iff.mp hquote
    obtain ⟨later, hlater⟩ := List.head?_eq_some_iff.mp hclose
    simp only [State.after_rest, htext, List.drop_succ_cons, List.drop_zero] at h hlater
    simp only [runs_bind, runs_skip, runs_spanFrom, runs_pure, Prod.mk.injEq, and_assoc,
      exists_and_left, exists_eq_left, exists_const, State.after_after] at h
    obtain ⟨rfl, rfl, rfl⟩ := h
    have hlength := congrArg List.length hlater
    have hcount : 1 + stringBody quote text + 1
        = (text.take (stringBody quote text)).length + 2 := by
      simp only [List.length_drop, List.length_cons, List.length_take] at hlength ⊢
      omega
    have hrest : (s.after (1 + stringBody quote text + 1)).rest = later := by
      simpa [htext, Nat.add_comm 1] using congrArg (List.drop 1) hlater
    use by rw [hrest, ← hlater, List.take_append_drop, htext], rfl, by rw [hcount]
  · simp at h

end UtilityClasses.Scan

namespace UtilityClasses

open Scan

/-- That a source can be read is computed without its markup. -/
theorem Markup.exists_parse_of_isOk {dialect : Dialect} {text : String}
    (h : (Markup.parse dialect text).isOk = true) :
  ∃ markup, Markup.parse dialect text = .ok markup
  := by
  cases hparse : Markup.parse dialect text with
  | error _ => simp [hparse, Except.isOk, Except.toBool] at h
  | ok markup => exact ⟨markup, rfl⟩

/-- The markup of a source is what its scan has found, the elements ordered by their
positions. -/
theorem Markup.parse_eq_ok_iff_runs {dialect : Dialect} {text : String} {markup : Markup} :
  Markup.parse dialect text = .ok markup ↔
    ∃ found, Runs (source (Context.ofLength dialect text.toList.length))
      (State.initial text.toList) () found ∧
      markup = ⟨found.elements.toList.mergeSort (fun a b => a.span.start ≤ b.span.start),
        found.arena⟩
  := by
  rw [Markup.parse]
  constructor
  · intro h
    cases hrun : (source (Context.ofLength dialect text.toList.length)).run
        (State.initial text.toList) with
    | error stop => simp [hrun, bind, Except.bind] at h
    | ok found =>
      simp only [hrun, bind, Except.bind, pure, Except.pure, Except.ok.injEq] at h
      use found.2, hrun, h.symm
  · rintro ⟨found, hrun, rfl⟩
    have hrun : (source (Context.ofLength dialect text.toList.length)).run
      (State.initial text.toList) = .ok ((), found) := hrun
    simp [hrun, bind, Except.bind, pure, Except.pure]

end UtilityClasses
