import UtilityClasses.Proofs.Scan.Runs

/-!
# Passing over a text

`s.Passes text s'` says that the text lies ahead in the state `s`, and that it has been passed
in the state `s'`. What a step has passed is put together from what its parts have passed, and
taken apart in the same way.
-/

namespace UtilityClasses.Scan

open Text (byteSize)

/-- The text lies ahead, and has been passed in the later state. -/
structure State.Passes (s : State) (text : List Char) (s' : State) : Prop where
  ahead : s.rest = text ++ s'.rest
  eq_after : s' = s.after text.length

variable {s t s' : State} {text before after later : List Char}

/-- A text that lies ahead can be passed. -/
theorem State.passes_after (h : s.rest = text ++ later) :
  s.Passes text (s.after text.length)
  where
  ahead := by rw [State.after_rest, h, List.drop_left]
  eq_after := rfl

@[simp]
theorem State.passes_nil :
  s.Passes [] s' ↔ s' = s
  := by
  constructor
  · intro h
    rw [h.eq_after, List.length_nil, State.after_zero]
  · rintro rfl
    constructor
    · rfl
    · rw [List.length_nil, State.after_zero]

theorem State.passes_append :
  s.Passes (before ++ after) s' ↔ ∃ t, s.Passes before t ∧ t.Passes after s'
  := by
  constructor
  · intro h
    have hbefore : s.Passes before (s.after before.length) := by
      apply State.passes_after
      rw [h.ahead, List.append_assoc]
    use s.after before.length, hbefore
    constructor
    · rw [← List.append_cancel_left_eq before, ← hbefore.ahead, h.ahead, List.append_assoc]
    · rw [h.eq_after, State.after_after, List.length_append]
  · rintro ⟨t, hbefore, hafter⟩
    constructor
    · rw [hbefore.ahead, hafter.ahead, List.append_assoc]
    · rw [hafter.eq_after, hbefore.eq_after, State.after_after, List.length_append]

theorem State.passes_cons {c : Char} :
  s.Passes (c :: text) s' ↔ ∃ t, s.Passes [c] t ∧ t.Passes text s'
  := by
  rw [← State.passes_append, List.singleton_append]

namespace State.Passes

theorem pos (h : s.Passes text s') :
  s'.pos = s.pos + byteSize text
  := by
  rw [h.eq_after, State.after, h.ahead, List.take_left]

theorem elements (h : s.Passes text s') :
  s'.elements = s.elements
  := by
  rw [h.eq_after, State.after_elements]

theorem arena (h : s.Passes text s') :
  s'.arena = s.arena
  := by
  rw [h.eq_after, State.after_arena]

theorem trans (hbefore : s.Passes before t) (hafter : t.Passes after s') :
  s.Passes (before ++ after) s'
  := State.passes_append.mpr ⟨t, hbefore, hafter⟩

/-- What lies ahead starts as the text does. -/
theorem head? (h : s.Passes text s') (hne : text ≠ []) :
  s.rest.head? = text.head?
  := by
  obtain ⟨c, later, rfl⟩ := List.exists_cons_of_ne_nil hne
  rw [h.ahead]
  rfl

/-- One text leads to one state. -/
theorem unique (h : s.Passes text s') (h' : s.Passes text t) :
  s' = t
  := by
  rw [h.eq_after, h'.eq_after]

end State.Passes

/-! ### Steps that pass over a text -/

/-- A run of characters of a class is what a text starts with that goes on with another one. -/
theorem eq_takeWhile_iff {kind : Char → Bool} :
  (text ++ later).takeWhile kind = text ↔
    (∀ c ∈ text, kind c = true) ∧ ∀ c ∈ later.head?, kind c = false
  := by
  constructor
  · intro h
    have hall : ∀ c ∈ text, kind c = true := by
      rw [← List.all_eq_true, ← h]
      apply List.all_takeWhile
    apply And.intro hall
    intro c hc
    obtain ⟨rest, rfl⟩ := List.head?_eq_some_iff.mp hc
    rw [List.takeWhile_append_of_pos hall, List.append_right_eq_self, List.takeWhile_cons] at h
    by_contra hkind
    simp [hkind] at h
  · rintro ⟨hall, hnext⟩
    rw [List.takeWhile_append_of_pos hall, List.append_right_eq_self]
    cases later with
    | nil => rfl
    | cons c rest =>
      have hc := hnext c rfl
      rw [List.takeWhile_cons_of_neg (by simp [hc])]

theorem runs_takeWhile_iff {kind : Char → Bool} :
  Runs (takeWhile kind) s text s' ↔
    s.Passes text s' ∧ (∀ c ∈ text, kind c = true) ∧ ∀ c ∈ s'.rest.head?, kind c = false
  := by
  rw [runs_takeWhile]
  constructor
  · rintro ⟨rfl, rfl⟩
    have hpasses : s.Passes (s.rest.takeWhile kind) (s.after (s.rest.takeWhile kind).length) :=
      State.passes_after List.takeWhile_append_dropWhile.symm
    apply And.intro hpasses
    rw [← eq_takeWhile_iff, ← hpasses.ahead]
  · rintro ⟨hpasses, hall⟩
    rw [← eq_takeWhile_iff, ← hpasses.ahead] at hall
    rw [hall]
    use rfl, hpasses.eq_after

theorem runs_skipSpacing_iff {u : Unit} :
  Runs skipSpacing s u s' ↔
    ∃ text, s.Passes text s' ∧ (∀ c ∈ text, isSpacing c = true) ∧
      ∀ c ∈ s'.rest.head?, isSpacing c = false
  := by
  simp only [skipSpacing, runs_discard, runs_takeWhile_iff]

theorem runs_skip_iff {count : Nat} (h : s.rest = text ++ later) (hcount : text.length = count)
    {u : Unit} :
  Runs (skip count) s u s' ↔ s.Passes text s'
  := by
  subst hcount
  rw [runs_skip]
  constructor
  · rintro rfl
    apply State.passes_after h
  · apply State.Passes.eq_after

theorem runs_skip_one {c : Char} (h : s.rest.head? = some c) {u : Unit} :
  Runs (skip 1) s u s' ↔ s.Passes [c] s'
  := by
  obtain ⟨later, hrest⟩ := List.head?_eq_some_iff.mp h
  have hahead : s.rest = [c] ++ later := hrest
  apply runs_skip_iff hahead rfl

theorem runs_skip_two {c d : Char} (h : s.rest = c :: d :: later) {u : Unit} :
  Runs (skip 2) s u s' ↔ s.Passes [c, d] s'
  := by
  have hahead : s.rest = [c, d] ++ later := h
  apply runs_skip_iff hahead rfl

/-! ### Finding a text -/

variable {needle body : List Char}

theorem offsetOf_eq_zero {text : List Char} (h : needle <+: text) :
  offsetOf needle text = some 0
  := by
  cases text with
  | nil =>
    obtain rfl := List.prefix_nil.mp h
    rfl
  | cons c rest => rw [offsetOf, if_pos (List.isPrefixOf_iff_prefix.mpr h)]

theorem offsetOf_cons {c : Char} {rest : List Char} (h : ¬ needle <+: c :: rest) :
  offsetOf needle (c :: rest) = (offsetOf needle rest).map (· + 1)
  := by
  rw [offsetOf, if_neg (mt List.isPrefixOf_iff_prefix.mp h)]

/-- The first occurrence of a text stays the first if more is added behind it. -/
theorem offsetOf_append (h : offsetOf needle (body ++ needle) = some body.length) :
  offsetOf needle (body ++ needle ++ later) = some body.length
  := by
  induction body with
  | nil => apply offsetOf_eq_zero (List.prefix_append _ _)
  | cons c body ih =>
    have hnot : ¬ needle <+: c :: (body ++ needle) := by
      intro hstarts
      rw [List.cons_append, offsetOf_eq_zero hstarts] at h
      simp at h
    rw [List.cons_append, offsetOf_cons hnot] at h
    obtain ⟨n, hbody, hn⟩ := Option.map_eq_some_iff.mp h
    obtain rfl : n = body.length := by simpa using hn
    rw [List.cons_append, List.cons_append, offsetOf_cons, ih hbody]
    · rfl
    · intro hstarts
      apply hnot
      have hlength : needle.length ≤ (c :: (body ++ needle)).length := by
        simp only [List.length_cons, List.length_append]
        omega
      apply List.prefix_of_prefix_length_le hstarts (List.prefix_append _ later) hlength

/-- Where a text occurs it stands, and there is no earlier occurrence. -/
theorem exists_append_of_offsetOf {text : List Char} {count : Nat}
    (h : offsetOf needle text = some count) :
  ∃ body later, text = body ++ needle ++ later ∧ body.length = count ∧
    offsetOf needle (body ++ needle) = some body.length
  := by
  induction text generalizing count with
  | nil =>
    obtain ⟨hempty, rfl⟩ : needle = [] ∧ 0 = count := by simpa [offsetOf] using h
    subst hempty
    exact ⟨[], [], rfl, rfl, rfl⟩
  | cons c rest ih =>
    by_cases hstarts : needle <+: c :: rest
    · rw [offsetOf_eq_zero hstarts, Option.some.injEq] at h
      obtain ⟨later, hlater⟩ := hstarts
      exact ⟨[], later, hlater.symm, h, offsetOf_eq_zero List.prefix_rfl⟩
    · rw [offsetOf_cons hstarts] at h
      obtain ⟨n, hrest, rfl⟩ := Option.map_eq_some_iff.mp h
      obtain ⟨body, later, rfl, rfl, hbody⟩ := ih hrest
      refine ⟨c :: body, later, rfl, rfl, ?_⟩
      rw [List.cons_append, offsetOf_cons, hbody]
      · rfl
      · intro h
        apply hstarts
        apply h.trans (List.prefix_append (c :: (body ++ needle)) later)

/-- What is passed over if a text is found. -/
theorem runs_skipPast_true_iff {needle : List Char} :
  Runs (skipPast needle) s true s' ↔
    ∃ body, offsetOf needle (body ++ needle) = some body.length ∧ s.Passes (body ++ needle) s'
  := by
  simp only [runs_skipPast, true_and, Bool.true_eq_false, false_and, and_false, or_false]
  constructor
  · rintro ⟨_, hcount, rfl⟩
    obtain ⟨body, later, hrest, rfl, hbody⟩ := exists_append_of_offsetOf hcount
    use body, hbody
    rw [← List.length_append]
    apply State.passes_after hrest
  · rintro ⟨body, hbody, hpasses⟩
    use body.length
    constructor
    · rw [hpasses.ahead, offsetOf_append hbody]
    · rw [hpasses.eq_after, List.length_append]

end UtilityClasses.Scan
