import UtilityClasses.Proofs.Cursor.Byte
import UtilityClasses.Proofs.Scan.Attempt
import UtilityClasses.Proofs.Scan.Rounds
import UtilityClasses.Proofs.Scan.Text

/-!
# Cursors and scans

A cursor over bytes and a scan over characters read the same source. `Agrees source s x y Q`
says that the reading `x` and the scan `y`, both started where the scan stands in the state
`s`, either end at one and the same place with results that `Q` relates, or refuse the source
for the same reason. So a reading that agrees with a scan is never misplaced, cuts no
character into pieces and is never stalled, and the scan does not exhaust its budget.
-/

namespace UtilityClasses.Cursor

open Text (byteSize)
open Scan (Runs Yields)

variable {α β γ δ σ : Type} {source passed : List Char} {s t u : Scan.State}

/-! ### Where a cursor and a scan are -/

/-- The cursor where a scan stands, with what the scan has found. -/
def State.of (s : Scan.State) : State :=
  ⟨s.pos, s.elements, s.arena⟩

/-- A scan that has stood in one state stands in a later one: it has gone forward, and to what
it had found it has only added. -/
structure Follows (s t : Scan.State) : Prop where
  ahead : ∃ passed, s.rest = passed ++ t.rest ∧ t.pos = s.pos + byteSize passed
  elements : s.elements.toList <+: t.elements.toList
  arena : s.arena.toList <+: t.arena.toList

namespace Follows

theorem refl (s : Scan.State) :
  Follows s s
  where
  ahead := ⟨[], rfl, rfl⟩
  elements := List.prefix_rfl
  arena := List.prefix_rfl

theorem trans (h : Follows s t) (h' : Follows t u) :
  Follows s u
  where
  ahead := by
    obtain ⟨first, hrest, hpos⟩ := h.ahead
    obtain ⟨second, hrest', hpos'⟩ := h'.ahead
    use first ++ second
    rw [hrest, hrest', hpos', hpos, List.append_assoc, Text.byteSize_append, Nat.add_assoc]
    exact ⟨rfl, rfl⟩
  elements := h.elements.trans h'.elements
  arena := h.arena.trans h'.arena

theorem after (s : Scan.State) (count : Nat) :
  Follows s (s.after count)
  where
  ahead := ⟨s.rest.take count, (List.take_append_drop count s.rest).symm, rfl⟩
  elements := List.prefix_rfl
  arena := List.prefix_rfl

theorem after_le (s : Scan.State) {less more : Nat} (h : less ≤ more) :
  Follows (s.after less) (s.after more)
  := by
  rw [← Nat.add_sub_cancel' h, ← Scan.State.after_after]
  exact .after _ _

theorem record (s : Scan.State) (element : Element) :
  Follows s { s with elements := s.elements.push element }
  where
  ahead := ⟨[], rfl, rfl⟩
  elements := by
    rw [Array.toList_push]
    apply List.prefix_append
  arena := List.prefix_rfl

theorem store (s : Scan.State) (expr : Expr) :
  Follows s { s with arena := s.arena.push expr }
  where
  ahead := ⟨[], rfl, rfl⟩
  elements := List.prefix_rfl
  arena := by
    rw [Array.toList_push]
    apply List.prefix_append

/-- No more is left than there was. -/
theorem length_le (h : Follows s t) :
  t.rest.length ≤ s.rest.length
  := by
  obtain ⟨passed, hrest, -⟩ := h.ahead
  simp [hrest]

/-- Less is left if something else lies ahead. -/
theorem length_lt (h : Follows s t) (hne : t.rest ≠ s.rest) :
  t.rest.length < s.rest.length
  := by
  obtain ⟨passed, hrest, -⟩ := h.ahead
  have hpassed : passed ≠ [] := by
    rintro rfl
    exact hne hrest.symm
  have hpos := List.length_pos_iff.mpr hpassed
  simp only [hrest, List.length_append]
  omega

/-- The offset grows as long as something is passed. -/
theorem pos_lt_iff (h : Follows s t) :
  s.pos < t.pos ↔ t.rest.length < s.rest.length
  := by
  obtain ⟨passed, hrest, hpos⟩ := h.ahead
  rw [hpos, hrest, List.length_append]
  by_cases hne : passed = []
  · simp [hne, byteSize]
  · have hsize := Text.byteSize_pos hne
    have hlength := List.length_pos_iff.mpr hne
    omega

end Follows

/-! ### Agreement -/

/-- The reading and the scan end at one place with related results, or refuse the source for
the same reason. -/
def Agrees (source : List Char) (s : Scan.State) (x : Reading α) (y : Scan β)
    (Q : α → β → Scan.State → Prop) : Prop :=
  s.At source →
    (∃ a b t, x source (.of s) = .ok (a, .of t) ∧ Runs y s b t ∧ t.At source ∧ Q a b t) ∨
    (∃ error, x source (.of s) = .error (.refused error) ∧ y s = .error (.error error))

/-- The reading and the scan agree, have the same result, and have gone forward. -/
abbrev Mirrors (source : List Char) (s : Scan.State) (x : Reading α) (y : Scan α) : Prop :=
  Agrees source s x y fun a b t => a = b ∧ Follows s t

/-- The reading mirrors the scan, and at least a character is passed. -/
abbrev Advances (source : List Char) (s : Scan.State) (x : Reading α) (y : Scan α) : Prop :=
  Agrees source s x y fun a b t => a = b ∧ Follows (s.after 1) t

theorem bind_apply (x : Reading α) (f : α → Reading β) (source : List Char) (state : State) :
  (x >>= f) source state =
    match x source state with
    | .ok (a, state') => f a source state'
    | .error halt => .error halt
  := by
  change (x source state).bind _ = _
  cases x source state <;> rfl

theorem read_bind_apply (f : List Char → Reading β) (source : List Char) (state : State) :
  (read >>= f) source state = f source source state
  := rfl

variable {x x' : Reading α} {y y' : Scan β} {f : α → Reading γ} {g : β → Scan δ}
  {Q Q' : α → β → Scan.State → Prop} {R : γ → δ → Scan.State → Prop}

namespace Agrees

theorem pure {a : α} {b : β} (h : Q a b s) :
  Agrees source s (pure a) (pure b) Q
  := fun hat => .inl ⟨a, b, s, rfl, rfl, hat, h⟩

theorem mono (h : Agrees source s x y Q)
    (himp : ∀ a b t, Runs y s b t → t.At source → Q a b t → Q' a b t) :
  Agrees source s x y Q'
  := by
  intro hat
  obtain ⟨a, b, t, hx, hy, ht, hQ⟩ | herror := h hat
  · exact .inl ⟨a, b, t, hx, hy, ht, himp a b t hy ht hQ⟩
  · exact .inr herror

theorem bind (h : Agrees source s x y Q)
    (hnext : ∀ a b t, Runs y s b t → Q a b t → Agrees source t (f a) (g b) R) :
  Agrees source s (x >>= f) (y >>= g) R
  := by
  intro hat
  obtain ⟨a, b, t, hx, hy, ht, hQ⟩ | ⟨error, hx, hy⟩ := h hat
  · have hyapply : y s = .ok (b, t) := hy
    simp only [Runs, bind_apply, Scan.bind_apply, hx, hyapply]
    exact hnext a b t hy hQ ht
  · right
    use error
    simp only [bind_apply, Scan.bind_apply, hx, hy]
    exact ⟨trivial, trivial⟩

/-- It is enough that both agree where the scan stands in the source. -/
theorem of_at (h : s.At source → Agrees source s x y Q) :
  Agrees source s x y Q
  := fun hat => h hat hat

/-- The reading goes on after the scan has come to its end. -/
theorem bind_left {f : α → Reading γ} {R : γ → β → Scan.State → Prop} (h : Agrees source s x y Q)
    (hnext : ∀ a b t, Runs y s b t → Q a b t → Agrees source t (f a) (Pure.pure b) R) :
  Agrees source s (x >>= f) y R
  := by
  rw [← bind_pure y]
  exact h.bind hnext

/-- The reading looks something up and ends where it was. -/
theorem look {b : β} {z : Scan δ} (h : Agrees source s x (Pure.pure b) Q)
    (hnext : ∀ a, Q a b s → Agrees source s (f a) z R) :
  Agrees source s (x >>= f) z R
  := by
  rw [← pure_bind b fun _ => z]
  apply h.bind
  rintro a _ _ hruns hQ
  obtain ⟨rfl, rfl⟩ := Scan.runs_pure.mp hruns
  exact hnext a hQ

/-- The scan goes on with its result, without moving. -/
theorem map_right {h : β → δ} {R : α → δ → Scan.State → Prop}
    (hxy : Agrees source s x y fun a b t => R a (h b) t) :
  Agrees source s x (h <$> y) R
  := by
  rw [← bind_pure x, map_eq_pure_bind]
  exact hxy.bind fun _ _ _ _ hR => .pure hR

/-- The scan of which only a part of the result is looked at. -/
theorem of_map {h : β → δ} {R : α → δ → Scan.State → Prop} (hmap : Agrees source s x (h <$> y) R) :
  Agrees source s x y fun a b t => R a (h b) t
  := by
  intro hat
  obtain ⟨a, b, t, hx, hy, ht, hR⟩ | ⟨error, hx, hy⟩ := hmap hat
  · obtain ⟨b', hy', rfl⟩ := Scan.runs_map.mp hy
    exact .inl ⟨a, b', t, hx, hy', ht, hR⟩
  · refine .inr ⟨error, hx, ?_⟩
    rw [map_eq_pure_bind, Scan.bind_apply] at hy
    cases hrun : y s with
    | ok p =>
      rw [hrun] at hy
      cases hy
    | error stop =>
      rw [hrun] at hy
      cases hy
      rfl

/-- The reading has come to its end, and the scan gets there without moving. -/
theorem of_runs {a : α} {b : β} (hy : Runs y s b s) (h : Q a b s) :
  Agrees source s (Pure.pure a) y Q
  := fun hat => .inl ⟨a, b, s, rfl, hy, hat, h⟩

/-- What a reading looks up may be put in its place. -/
theorem congr_left (hx : s.At source → x source (.of s) = x' source (.of s)) :
  Agrees source s x y Q ↔ Agrees source s x' y Q
  := by
  constructor
  · intro h hat
    rw [← hx hat]
    exact h hat
  · intro h hat
    rw [hx hat]
    exact h hat

/-- What a scan looks up may be put in its place. -/
theorem congr_right (hy : y s = y' s) :
  Agrees source s x y Q ↔ Agrees source s x y' Q
  := by
  simp only [Agrees, Runs, hy]

/-- A reading moves to another place, from which the scan would do the same. -/
theorem move {a : α} {z z' : Scan δ} (hx : s.At source → x source (.of s) = .ok (a, .of t))
    (ht : s.At source → t.At source) (hz : z s = z' t) (h : Agrees source t (f a) z' R) :
  Agrees source s (x >>= f) z R
  := by
  intro hat
  simp only [Runs, bind_apply, hx hat, hz]
  exact h (ht hat)

/-- Both decide in the same way how to go on. -/
theorem ite {p q : Prop} [Decidable p] [Decidable q] (hiff : p ↔ q)
    (hpos : q → Agrees source s x y Q) (hneg : ¬ q → Agrees source s x' y' Q) :
  Agrees source s (if p then x else x') (if q then y else y') Q
  := by
  by_cases hq : q
  · rw [if_pos (hiff.mpr hq), if_pos hq]
    exact hpos hq
  · rw [if_neg (mt hiff.mp hq), if_neg hq]
    exact hneg hq

/-- Both refuse the source. -/
theorem refused {error : SourceError}
    (hx : s.At source → x source (.of s) = .error (.refused error))
    (hy : y s = .error (.error error)) :
  Agrees source s x y Q
  := fun hat => .inr ⟨error, hx hat, hy⟩

end Agrees

namespace Mirrors

variable {y : Scan α} {g : α → Scan δ}

theorem bind (h : Mirrors source s x y)
    (hnext : ∀ a t, Runs y s a t → Follows s t → Agrees source t (f a) (g a) R) :
  Agrees source s (x >>= f) (y >>= g) R
  := by
  apply Agrees.bind h
  rintro a _ t hy ⟨rfl, hfollows⟩
  exact hnext a t hy hfollows

/-- A part that is entered later on. -/
theorem follow (h : Mirrors source t x y) (hfollows : Follows s t) :
  Agrees source t x y fun a b u => a = b ∧ Follows s u
  := h.mono fun _ _ _ _ _ hpost => ⟨hpost.1, hfollows.trans hpost.2⟩

end Mirrors

theorem Advances.mirrors {y : Scan α} (h : Advances source s x y) :
  Mirrors source s x y
  := h.mono fun _ _ _ _ _ hpost => ⟨hpost.1, (Follows.after s 1).trans hpost.2⟩

end UtilityClasses.Cursor
