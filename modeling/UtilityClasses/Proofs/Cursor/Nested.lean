import UtilityClasses.Cursor.Nested
import UtilityClasses.Proofs.Cursor.Lexeme
import UtilityClasses.Scan.Nested

/-!
# Contexts that agree

A construct is read in the same way as it is scanned if the constructs inside it are, which lie
where fewer characters are left.
-/

namespace UtilityClasses.Cursor

open Scan (Runs)

variable {source : List Char} {s t : Scan.State} {mine : Context} {theirs : Scan.Context}
  {count count' : Nat}

/-- The characters at which code and expressions can end. -/
def AreStops (stops : List Char) : Prop :=
  ∀ c ∈ stops, c ∈ [',', ')', ']', '\x7d']

theorem AreStops.isSign {stops : List Char} (h : AreStops stops) {c : Char} (hc : c ∈ stops) :
  IsSign c
  := by
  have hmem := h c hc
  simp only [List.mem_cons, List.not_mem_nil, or_false] at hmem
  obtain rfl | rfl | rfl | rfl := hmem <;> decide

/-- Code is read as it is scanned, and it stops in front of a stop. -/
def AgreesCode (source : List Char) (s : Scan.State) (stops : List Char) (x : Reading Bool)
    (y : Scan Bool) : Prop :=
  Agrees source s x y fun a b t =>
    a = b ∧ Follows s t ∧ (b = true → ∃ c ∈ stops, t.rest.head? = some c)

/-- An element is read as it is scanned; if there is none, the scan has not moved. -/
def AgreesElement (source : List Char) (s : Scan.State) (x : Reading Bool) (y : Scan Bool) :
    Prop :=
  Agrees source s x y fun a b t => a = b ∧ if b then Follows (s.after 1) t else t = s

/-- The constructs inside others are read as they are scanned, if fewer than `count` characters
are left. -/
structure Nested.Agrees (source : List Char) (mine : Nested) (theirs : Scan.Nested)
    (count : Nat) : Prop where
  code {s : Scan.State} (h : s.rest.length < count) {stops : List Char}
    (hstops : AreStops stops) : AgreesCode source s stops (mine.code stops) (theirs.code stops)
  element {s : Scan.State} (h : s.rest.length < count) (hhead : s.rest.head? = some '<') :
    AgreesElement source s mine.element theirs.element
  region {s : Scan.State} (h : s.rest.length < count) {stops : List Char}
    (hstops : AreStops stops) : Mirrors source s (mine.region stops) (theirs.region stops)
  expression {s : Scan.State} (h : s.rest.length < count) :
    Mirrors source s mine.expression.run theirs.expression.run
  operand {s : Scan.State} (h : s.rest.length < count) :
    Mirrors source s mine.operand.run theirs.operand.run

/-- A construct is read in a context as it is scanned in another one, if no more than `count`
characters are left. -/
structure Context.Agrees (source : List Char) (mine : Context) (theirs : Scan.Context)
    (count : Nat) : Prop where
  dialect : theirs.dialect = mine.dialect
  budget : count < theirs.budget
  nested : mine.nested.Agrees source theirs.nested count

theorem Context.Agrees.mono (h : mine.Agrees source theirs count) (hle : count' ≤ count) :
  mine.Agrees source theirs count'
  where
  dialect := h.dialect
  budget := Nat.lt_of_le_of_lt hle h.budget
  nested :=
    { code := fun hlt => h.nested.code (Nat.lt_of_lt_of_le hlt hle)
      element := fun hlt => h.nested.element (Nat.lt_of_lt_of_le hlt hle)
      region := fun hlt => h.nested.region (Nat.lt_of_lt_of_le hlt hle)
      expression := fun hlt => h.nested.expression (Nat.lt_of_lt_of_le hlt hle)
      operand := fun hlt => h.nested.operand (Nat.lt_of_lt_of_le hlt hle) }

/-- Where a scan has come to, no more is left. -/
theorem Context.Agrees.follow (h : mine.Agrees source theirs s.rest.length)
    (hfollows : Follows s t) :
  mine.Agrees source theirs t.rest.length
  := h.mono hfollows.length_le

/-- Behind a character less is left. -/
theorem Follows.length_lt_of_after (h : Follows (s.after 1) t) (hne : s.rest ≠ []) :
  t.rest.length < s.rest.length
  := Nat.lt_of_le_of_lt h.length_le (Scan.length_after_lt hne Nat.one_pos)

theorem ne_nil_of_head? {c : Char} (h : s.rest.head? = some c) :
  s.rest ≠ []
  := by
  intro hnil
  simp [hnil] at h

/-- Code in braces is passed as a whole. -/
theorem advances_skipBraced (h : mine.Agrees source theirs s.rest.length)
    (hhead : s.rest.head? = some '\x7b') :
  Advances source s (skipBraced mine) (Scan.braced theirs)
  := by
  rw [Advances, skipBraced, agrees_position, Scan.braced, agrees_scan_position]
  apply Agrees.skip (by decide) hhead
  have hlt := Scan.length_after_lt (ne_nil_of_head? hhead) Nat.one_pos
  apply Agrees.bind (h.nested.code hlt (by simp [AreStops]))
  rintro found _ u - ⟨rfl, hfollows, hstop⟩
  cases found with
  | true =>
    obtain ⟨c, hc, hclose⟩ := hstop rfl
    obtain rfl := List.mem_singleton.mp hc
    exact (mirrors_advance (by decide) hclose).follow hfollows
  | false => exact .fail

end UtilityClasses.Cursor
