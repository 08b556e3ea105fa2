import UtilityClasses.Proofs.Cursor.Source
import UtilityClasses.Proofs.Scan.Ample

/-!
# Budgets do not matter

A scan in an ample context does what the cursor does, and the cursor knows of no budget. So all
ample contexts are the same.
-/

namespace UtilityClasses.Cursor

open Allocator (unbounded)
open Text (byteSize)
open Scan (Runs)

variable {α β : Type} {source : List Char} {s t : Scan.State} {context context' : Scan.Context}
  {count : Nat}

/-- Every state lies in some source. -/
theorem exists_at (s : Scan.State) :
  ∃ source, s.At source
  := by
  use List.replicate s.pos 'a' ++ s.rest, List.replicate s.pos 'a', rfl
  rw [byteSize_of_isAscii, List.length_replicate]
  intro c hc
  rw [List.eq_of_mem_replicate hc]
  decide

theorem eq_of_at (h : s.At source) (h' : t.At source) (heq : State.of s = State.of t) :
  s = t
  := by
  obtain ⟨passed, hsource, hpos⟩ := h
  obtain ⟨passed', hsource', hpos'⟩ := h'
  obtain ⟨rest, pos, elements, arena⟩ := s
  obtain ⟨rest', pos', elements', arena'⟩ := t
  obtain ⟨rfl, rfl, rfl⟩ : pos = pos' ∧ elements = elements' ∧ arena = arena' := by
    simpa [State.of] using heq
  have hsize : byteSize passed = byteSize passed' := hpos.symm.trans hpos'
  obtain ⟨-, rfl⟩ := Text.append_inj_of_byteSize (hsource.symm.trans hsource') hsize
  rfl

/-- Two scans that both agree with a reading do the same. -/
theorem eq_of_agrees {x : Reading α} {y y' : Scan α} {Q Q' : α → α → Scan.State → Prop}
    (h : ∀ source, Agrees source s x y Q) (h' : ∀ source, Agrees source s x y' Q')
    (hQ : ∀ a b t, Q a b t → a = b) (hQ' : ∀ a b t, Q' a b t → a = b) :
  y s = y' s
  := by
  obtain ⟨source, hat⟩ := exists_at s
  obtain ⟨a, b, t, hx, hy, ht, hpost⟩ | ⟨error, hx, hy⟩ := h source hat
  · obtain ⟨a', b', t', hx', hy', ht', hpost'⟩ | ⟨_, hx', -⟩ := h' source hat
    · rw [hx, Except.ok.injEq, Prod.mk.injEq] at hx'
      obtain ⟨rfl, heq⟩ := hx'
      obtain rfl := hQ _ _ _ hpost
      obtain rfl := hQ' _ _ _ hpost'
      obtain rfl := eq_of_at ht ht' heq
      exact Eq.trans hy (Eq.symm hy')
    · rw [hx] at hx'
      cases hx'
  · obtain ⟨a', b', t', hx', -⟩ | ⟨error', hx', hy'⟩ := h' source hat
    · rw [hx] at hx'
      cases hx'
    · rw [hx] at hx'
      cases hx'
      rw [hy, hy']

/-- The cursor that does what is done in an ample context. -/
theorem agrees_ample {dialect : Dialect} (source : List Char) (h : context.Ample count)
    (hdialect : context.dialect = dialect) :
  Context.Agrees source ⟨dialect, unbounded.nested dialect count⟩ context count
  where
  dialect := hdialect
  budget := h.lt_budget
  nested := by
    rw [h.nested_eq, hdialect]
    exact agrees_nested source _ (Nat.le_refl count) (Nat.le_sub_one_of_lt h.lt_budget)

section Eq

variable (h : context.Ample s.rest.length) (h' : context'.Ample s.rest.length)
  (hdialect : context.dialect = context'.dialect)
include h h' hdialect

theorem lexeme_eq {c : Char} {later : List Char} (hrest : s.rest = c :: later)
    (place : Scan.Place) :
  Scan.lexeme context place c s = Scan.lexeme context' place c s
  := eq_of_agrees (fun source => advances_lexeme (agrees_ample source h hdialect) hrest place)
    (fun source => advances_lexeme (agrees_ample source h' rfl) hrest place)
    (fun _ _ _ hpost => hpost.1) (fun _ _ _ hpost => hpost.1)

theorem element_eq (hhead : s.rest.head? = some '<') :
  Scan.element context s = Scan.element context' s
  := eq_of_agrees (fun source => agrees_element (agrees_ample source h hdialect) hhead)
    (fun source => agrees_element (agrees_ample source h' rfl) hhead)
    (fun _ _ _ hpost => hpost.1) (fun _ _ _ hpost => hpost.1)

theorem codeFrom_eq {stops : List Char} (hstops : AreStops stops) {budget budget' : Nat}
    (hbudget : s.rest.length < budget) (hbudget' : s.rest.length < budget') (place : Scan.Place) :
  Scan.codeFrom context stops budget place s = Scan.codeFrom context' stops budget' place s
  := eq_of_agrees
    (fun source => mirrors_codeRounds s (agrees_ample source h hdialect) hstops hbudget place)
    (fun source => mirrors_codeRounds s (agrees_ample source h' rfl) hstops hbudget' place)
    (fun _ _ _ hpost => hpost.1) (fun _ _ _ hpost => hpost.1)

theorem code_eq {stops : List Char} (hstops : AreStops stops) :
  Scan.code context stops s = Scan.code context' stops s
  := codeFrom_eq h h' hdialect hstops h.lt_budget h'.lt_budget _

end Eq

/-- In an ample context a lexeme is at least a character long. -/
theorem length_lt_of_lexeme (h : context.Ample s.rest.length) {c : Char} {later : List Char}
    (hrest : s.rest = c :: later) {place place' : Scan.Place}
    (hruns : Runs (Scan.lexeme context place c) s place' t) :
  t.rest.length < s.rest.length
  := by
  obtain ⟨source, hat⟩ := exists_at s
  obtain ⟨_, _, _, -, hruns', -, -, hfollows⟩ | ⟨_, -, herror⟩ :=
    advances_lexeme (agrees_ample source h rfl) hrest place hat
  · rw [Runs, hruns, Except.ok.injEq, Prod.mk.injEq] at hruns'
    obtain ⟨-, rfl⟩ := hruns'
    exact hfollows.length_lt_of_after (by simp [hrest])
  · rw [Runs, herror] at hruns
    cases hruns

end UtilityClasses.Cursor
