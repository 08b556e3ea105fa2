import UtilityClasses.Proofs.Scan.Attempt
import UtilityClasses.Proofs.Scan.Rounds
import UtilityClasses.Proofs.Scan.Text

/-!
# Scans account for their errors

A source is refused for a construct that starts where the error says, with the text that opens a
construct of its kind. `Accounts source s x Q` says so of the scan `x` that starts in the state `s`;
if it comes to an end, it has not gone back, and `Q` holds of its result.
-/

namespace UtilityClasses

open Text (Slice)

/-- The texts that a construct of the kind that is left open can start with. -/
def SourceError.Cause.openers : Cause → List (List Char)
  | openString | openValue _ => [['"'], ['\'']]
  | openTemplate => [['\x60']]
  | openComment => [['/', '*'], ['<', '!', '-', '-']]
  | openTag name | openElement name => [('<' :: name.toList)]
  | openContainer => [['\x7b']]
  | missingValue _ => [[]]

/-- The construct that was left open starts where the error says. If it is an element, its opening
tag ends where the error ends; if it is a value, only blanks stand between the `=` and the error. -/
structure SourceError.Stands (source : List Char) (error : SourceError) : Prop where
  opens : ∃ opener ∈ error.cause.openers, ∃ inside, Slice source error.span (opener ++ inside)
  tag (name : String) (h : error.cause = .openElement name) :
    ∃ inside, Slice source error.span ('<' :: name.toList ++ inside ++ ['>'])
  value (name : String) (h : error.cause = .missingValue name) :
    error.span.isEmpty ∧ ∃ start blanks, (∀ c ∈ blanks, Scan.isSpacing c) ∧
      Slice source ⟨start, error.span.start⟩ ('=' :: blanks)

namespace Scan

variable {α β : Type} {source : List Char} {s t u : State} {x y : Scan α} {f : α → Scan β}
  {Q : α → State → Prop} {R : β → State → Prop} {cause : SourceError.Cause} {start : Nat}

/-! ### Constructs that are open -/

/-- A construct of the kind has been opened at an offset, and the scan is inside it. -/
def Opened (source : List Char) (cause : SourceError.Cause) (start : Nat) (s : State) : Prop :=
  ∃ opener ∈ cause.openers, ∃ inside, Slice source ⟨start, s.pos⟩ (opener ++ inside)

theorem State.At.opened (h : s.At source) {opener later : List Char}
    (hopener : opener ∈ cause.openers) (hrest : s.rest = opener ++ later) :
  Opened source cause s.pos (s.after opener.length)
  := ⟨opener, hopener, [], by simpa using h.slice_after hrest⟩

/-- A construct has been opened once the character that opens it has been passed. -/
theorem State.At.openedBy (h : s.At source) {c : Char} (hopener : [c] ∈ cause.openers)
    (hhead : s.rest.head? = some c) :
  Opened source cause s.pos (s.after 1)
  := by
  obtain ⟨later, hrest⟩ := List.head?_eq_some_iff.mp hhead
  exact h.opened hopener hrest

/-- A tag has been opened once its name has been passed. -/
theorem State.At.openedTag (h : s.At source) (hhead : s.rest.head? = some '<') :
  let name := (s.after 1).rest.takeWhile isTagNameChar
  Opened source (.openTag (String.ofList name)) s.pos ((s.after 1).after name.length)
  := by
  intro name
  obtain ⟨later, hrest⟩ := List.head?_eq_some_iff.mp hhead
  have htag : s.rest = '<' :: name ++ ((s.after 1).after name.length).rest := by
    rw [List.cons_append, ← rest_eq_takeWhile_append, State.after_rest, hrest]
    rfl
  rw [State.after_after, Nat.add_comm, ← List.length_cons (a := '<')]
  exact h.opened (by simp [SourceError.Cause.openers]) htag

/-- A construct stays open while the scan goes on. -/
theorem Opened.follow (h : Opened source cause start s) (hat : t.At source) (hle : s.pos ≤ t.pos) :
  Opened source cause start t
  := by
  obtain ⟨opener, hopener, inside, hslice⟩ := h
  obtain ⟨more, hmore⟩ := hat.exists_slice hslice hle
  exact ⟨opener, hopener, inside ++ more, by simpa using hmore⟩

/-! ### Accounting for errors -/

/-- Where the scan stands in the source, the step comes to stand there no earlier, with a result
that `Q` holds of, or it refuses the source for a construct that stands there. -/
def Accounts (source : List Char) (s : State) (x : Scan α) (Q : α → State → Prop) : Prop :=
  s.At source →
    (∀ a t, x s = .ok (a, t) → t.At source ∧ s.pos ≤ t.pos ∧ Q a t) ∧
      ∀ error, x s = .error (.error error) → error.Stands source

/-- The step accounts for its errors, whatever its result. -/
abbrev Points (source : List Char) (s : State) (x : Scan α) : Prop :=
  Accounts source s x fun _ _ => True

namespace Accounts

theorem pure {a : α} (h : Q a s) :
  Accounts source s (pure a) Q
  := by
  intro hat
  constructor
  · rintro _ _ ⟨⟩
    exact ⟨hat, Nat.le_refl _, h⟩
  · rintro _ ⟨⟩

theorem bind (h : Accounts source s x Q)
    (hnext : ∀ a t, t.At source → s.pos ≤ t.pos → Q a t → Accounts source t (f a) R) :
  Accounts source s (x >>= f) R
  := by
  intro hat
  obtain ⟨hruns, herror⟩ := h hat
  rw [bind_apply]
  cases hx : x s with
  | error stop =>
    refine ⟨nofun, fun error heq => ?_⟩
    cases heq
    exact herror error hx
  | ok result =>
    obtain ⟨a, t⟩ := result
    obtain ⟨ht, hle, hQ⟩ := hruns a t hx
    obtain ⟨hnextRuns, hnextError⟩ := hnext a t ht hle hQ ht
    refine ⟨fun b u hrun => ?_, hnextError⟩
    obtain ⟨hu, hle', hR⟩ := hnextRuns b u hrun
    exact ⟨hu, Nat.le_trans hle hle', hR⟩

theorem ite {p : Prop} [Decidable p] (hpos : p → Accounts source s x Q)
    (hneg : ¬ p → Accounts source s y Q) :
  Accounts source s (if p then x else y) Q
  := by
  split
  · next hp => exact hpos hp
  · next hp => exact hneg hp

/-- It is enough if the step accounts where the scan stands in the source. -/
theorem of_at (h : s.At source → Accounts source s x Q) :
  Accounts source s x Q
  := fun hat => h hat hat

/-- The step does what another does in a later state. -/
theorem of_eq {t : State} (heq : x s = y t) (hat : s.At source → t.At source) (hle : s.pos ≤ t.pos)
    (h : Accounts source t y Q) :
  Accounts source s x Q
  := by
  intro hs
  obtain ⟨hruns, herror⟩ := h (hat hs)
  rw [heq]
  refine ⟨fun a u hrun => ?_, herror⟩
  obtain ⟨hu, hle', hQ⟩ := hruns a u hrun
  exact ⟨hu, Nat.le_trans hle hle', hQ⟩

/-- The source is refused. -/
theorem refused {error : SourceError} (heq : x s = .error (.error error))
    (hstands : s.At source → error.Stands source) :
  Accounts source s x Q
  := by
  intro hat
  rw [heq]
  refine ⟨nofun, ?_⟩
  rintro _ ⟨⟩
  exact hstands hat

/-- A step that finds something in any case. -/
theorem some (h : Points source s x) :
  Points source s (some <$> x)
  := by
  rw [Points, map_eq_pure_bind]
  exact h.bind fun _ _ _ _ _ => .pure trivial

/-- One step of an attempt and those behind it. -/
theorem attempt {x : Attempt α} {f : α → Attempt β} (h : Points source s x.run)
    (hnext : ∀ a t, t.At source → s.pos ≤ t.pos → Points source t (f a).run) :
  Points source s (x >>= f).run
  := by
  rw [Points, OptionT.run_bind]
  apply h.bind
  intro found t hat hle _
  cases found with
  | none => exact .pure trivial
  | some a => exact hnext a t hat hle

/-- If a step finds nothing, the scan goes back and makes another one. -/
theorem orElse {x : Scan (Option α)} {f : Option α → Scan α} (hx : Points source s x)
    (hsome : ∀ a, f (.some a) = Pure.pure a) (hnone : ∀ t, f none t = y s)
    (hy : Points source s y) :
  Points source s (x >>= f)
  := by
  refine .of_at fun hat => ?_
  obtain ⟨hruns, herror⟩ := hx hat
  cases hrun : x s with
  | error stop =>
    intro _
    rw [bind_apply, hrun]
    refine ⟨nofun, fun error heq => ?_⟩
    cases heq
    exact herror error hrun
  | ok result =>
    obtain ⟨found, t⟩ := result
    obtain ⟨ht, hle, -⟩ := hruns found t hrun
    cases found with
    | none => exact .of_eq (by rw [bind_apply, hrun]; exact hnone t) id (Nat.le_refl _) hy
    | some a =>
      refine .of_eq (t := t) (y := Pure.pure a) ?_ (fun _ => ht) hle (.pure trivial)
      rw [bind_apply, hrun]
      exact congrFun (hsome a) t

end Accounts

/-! ### Looking ahead -/

theorem accounts_rest {f : List Char → Scan β} (h : Accounts source s (f s.rest) R) :
  Accounts source s (rest >>= f) R
  := h

theorem accounts_position {f : Nat → Scan β} (h : Accounts source s (f s.pos) R) :
  Accounts source s (position >>= f) R
  := h

theorem accounts_get {f : State → Scan β} (h : Accounts source s (f s) R) :
  Accounts source s (get >>= f) R
  := h

theorem accounts_spanFrom {f : Span → Scan β} (h : Accounts source s (f ⟨start, s.pos⟩) R) :
  Accounts source s (spanFrom start >>= f) R
  := h

/-! ### Going forward -/

theorem accounts_take {count : Nat} {f : List Char → Scan β}
    (h : Accounts source (s.after count) (f (s.rest.take count)) R) :
  Accounts source s (take count >>= f) R
  := .of_eq (t := s.after count) rfl (fun hat => hat.after count) (s.pos_le_after count) h

theorem accounts_skip {count : Nat} {f : Unit → Scan β}
    (h : Accounts source (s.after count) (f ()) R) :
  Accounts source s (skip count >>= f) R
  := .of_eq (t := s.after count) rfl (fun hat => hat.after count) (s.pos_le_after count) h

theorem accounts_takeWhile {kind : Char → Bool} {f : List Char → Scan β}
    (h : Accounts source (s.after (s.rest.takeWhile kind).length) (f (s.rest.takeWhile kind)) R) :
  Accounts source s (takeWhile kind >>= f) R
  := by
  refine .of_eq ?_ (fun hat => hat.after _) (s.pos_le_after _) h
  rw [bind_apply, takeWhile_apply]

theorem accounts_skipSpacing {f : Unit → Scan β}
    (h : Accounts source (s.after (s.rest.takeWhile isSpacing).length) (f ()) R) :
  Accounts source s (skipSpacing >>= f) R
  := by
  rw [skipSpacing, discard_bind]
  exact accounts_takeWhile h

theorem points_skip {count : Nat} :
  Points source s (skip count)
  := by
  rw [← bind_pure (skip count)]
  exact accounts_skip (.pure trivial)

theorem points_takeWhile {kind : Char → Bool} :
  Points source s (takeWhile kind)
  := by
  rw [← bind_pure (takeWhile kind)]
  exact accounts_takeWhile (.pure trivial)

theorem points_discard (h : Points source s x) :
  Points source s (discard x)
  := by
  rw [← bind_pure (discard x), discard_bind]
  exact h.bind fun _ _ _ _ _ => .pure trivial

theorem points_skipSpacing :
  Points source s skipSpacing
  := points_discard points_takeWhile

theorem points_skipLine :
  Points source s skipLine
  := points_discard points_takeWhile

theorem points_skipPast {needle : List Char} :
  Points source s (skipPast needle)
  := by
  rw [skipPast]
  apply accounts_rest
  split
  · exact accounts_skip (.pure trivial)
  · exact accounts_skip (.pure trivial)

theorem points_skipRegex :
  Points source s skipRegex
  := by
  rw [skipRegex]
  apply accounts_rest
  split
  · apply accounts_skip
    rw [discard_bind]
    exact accounts_takeWhile (.pure trivial)
  · exact .pure trivial

theorem accounts_record {element : Element} {f : PUnit → Scan β}
    (h : Accounts source { s with elements := s.elements.push element } (f ⟨⟩) R) :
  Accounts source s (record element >>= f) R
  := .of_eq (t := { s with elements := s.elements.push element }) rfl id (Nat.le_refl _) h

theorem points_store {shape : ExprShape} {span : Span} :
  Points source s (store shape span)
  := by
  intro hat
  constructor
  · rintro _ _ ⟨⟩
    exact ⟨hat, Nat.le_refl _, trivial⟩
  · rintro _ ⟨⟩

theorem accounts_exhaust :
  Accounts source s (exhaust : Scan α) Q
  := fun _ => ⟨nofun, nofun⟩

/-! ### Errors -/

/-- The source is refused for a construct that has been opened, if it is neither an element nor a
value that is missing. -/
theorem accounts_fail (h : s.At source → Opened source cause start s)
    (hother : ∀ name, cause ≠ .openElement name ∧ cause ≠ .missingValue name) :
  Accounts source s (fail cause start : Scan α) Q
  := .refused rfl fun hat => ⟨h hat, fun name heq => absurd heq (hother name).1,
    fun name heq => absurd heq (hother name).2⟩

/-- A comment that is not closed opens where it is said to. -/
theorem exists_of_comment_unclosed {text : List Char} (h : comment text = .unclosed) :
  ∃ later, text = '/' :: '*' :: later
  := by
  rw [comment.eq_def] at h
  split at h
  · cases h
  · exact ⟨_, rfl⟩
  · cases h

/-- So does the first comment in a run of blanks and comments that is not closed. -/
theorem exists_of_triviaAfter_unclosed {known offset : Nat} {text : List Char}
    (h : triviaAfter known text = .unclosed offset) :
  ∃ later, text.drop offset = '/' :: '*' :: later
  := by
  have hsucc {run : Trivia} {offset : Nat} (h : run.succ = .unclosed offset) :
      ∃ less, run = .unclosed less ∧ offset = less + 1 := by
    cases run with
    | closed length => cases h
    | unclosed less =>
      cases h
      exact ⟨less, rfl, rfl⟩
  fun_induction triviaAfter known text generalizing offset with
  | case1 known => cases h
  | case2 known c text ih | case3 c text hspacing ih | case5 c text hspacing length hcomment ih =>
    obtain ⟨less, hless, rfl⟩ := hsucc h
    exact ih hless
  | case4 => cases h
  | case6 c text hspacing hcomment =>
    cases h
    exact exists_of_comment_unclosed hcomment

theorem points_skipTrivia :
  Points source s skipTrivia
  := by
  have hskip := skipTrivia_eq s
  cases htrivia : trivia s.rest with
  | closed count =>
    rw [htrivia] at hskip
    exact .of_eq hskip (fun hat => hat.after count) (s.pos_le_after count) (.pure trivial)
  | unclosed offset =>
    rw [htrivia] at hskip
    refine .refused hskip fun hat => ?_
    obtain ⟨later, hlater⟩ := exists_of_triviaAfter_unclosed htrivia
    have hslice := (hat.after offset).slice_after (List.append_nil _).symm
    rw [after_length_after, State.after_rest, hlater] at hslice
    exact ⟨⟨['/', '*'], by simp [SourceError.Cause.openers], later, hslice⟩, by simp, by simp⟩

/-- A quotation mark opens a string, and so it does a value. -/
theorem mem_openers_of_quote {quote : Char} (h : quote = '"' ∨ quote = '\'') (name : String) :
  [quote] ∈ SourceError.Cause.openString.openers ∧
    [quote] ∈ (SourceError.Cause.openValue name).openers
  := by
  obtain rfl | rfl := h <;> simp [SourceError.Cause.openers]

theorem points_stringLiteral {quote : Char} (hquote : quote = '"' ∨ quote = '\'')
    (hhead : s.rest.head? = some quote) :
  Points source s (stringLiteral quote)
  := by
  refine .of_at fun hat => ?_
  have hopened := hat.openedBy (mem_openers_of_quote hquote "").1 hhead
  rw [stringLiteral]
  refine accounts_position (accounts_skip (accounts_rest (accounts_take (accounts_rest ?_))))
  split
  · exact accounts_skip (accounts_spanFrom (.pure trivial))
  · exact accounts_fail (fun hat' => hopened.follow hat' (State.pos_le_after _ _)) (by simp)

/-- Nothing is found where a value is expected, and only blanks stand between there and the `=`. -/
theorem stands_missingValue (hat : s.At source) (hhead : s.rest.head? = some '=') (name : String) :
  let start := ((s.after 1).after ((s.after 1).rest.takeWhile isSpacing).length).pos
  (SourceError.mk (.missingValue name) ⟨start, start⟩).Stands source
  := by
  obtain ⟨later, hrest⟩ := List.head?_eq_some_iff.mp hhead
  let blanks := (s.after 1).rest.takeWhile isSpacing
  have hblanks : (s.after 1).rest = blanks ++ later.dropWhile isSpacing := by
    simp only [blanks, State.after_rest, hrest, List.drop_succ_cons, List.drop_zero,
      List.takeWhile_append_dropWhile]
  have hvalue : s.rest = '=' :: blanks ++ later.dropWhile isSpacing := by
    rw [List.cons_append, ← hblanks, State.after_rest, hrest]
    rfl
  have hslice := hat.slice_after hvalue
  rw [List.length_cons, Nat.add_comm, ← State.after_after] at hslice
  intro start
  have hempty : Slice source ⟨start, start⟩ [] := by
    simpa using ((hat.after 1).after blanks.length).slice_after (List.nil_append _).symm
  refine ⟨⟨[], List.mem_cons_self, [], hempty⟩, by simp, fun _ _ => ⟨by simp [Span.isEmpty], s.pos,
    blanks, ?_, hslice⟩⟩
  exact fun c hc => List.mem_takeWhile_imp hc

/-- An element that is not closed starts with its opening tag. -/
theorem stands_openElement {name : String} {span : Span} {inside : List Char}
    (hslice : Slice source span ('<' :: name.toList ++ inside ++ ['>'])) :
  (SourceError.mk (.openElement name) span).Stands source
  where
  opens := ⟨_, List.mem_cons_self, inside ++ ['>'], by simpa using hslice⟩
  tag := by
    rintro _ ⟨⟩
    exact ⟨inside, hslice⟩
  value := by simp

end Scan

end UtilityClasses
