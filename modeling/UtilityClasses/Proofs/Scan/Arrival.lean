import UtilityClasses.Proofs.Scan.Attempt
import UtilityClasses.Proofs.Scan.Runs

/-!
# Where steps come to

`Arrives x s P` says that the step `x`, made in the state `s`, does not fail, and that `P` holds of
what it returns and of the state it leaves. `Tries x s P` says that the attempt `x` does not fail,
and that `P` holds of the state it leaves if it has found something.
-/

namespace UtilityClasses.Scan

variable {α β : Type} {s t : State} {x : Scan α} {f : α → Scan β} {a : α}
  {P P' : α → State → Prop} {Q : β → State → Prop}

/-- The step does not fail, and `P` holds of what it returns and of where it comes to. -/
def Arrives (x : Scan α) (s : State) (P : α → State → Prop) : Prop :=
  ∃ a t, Runs x s a t ∧ P a t

/-- The attempt does not fail, and if it finds something then `P` holds of where it comes to. -/
abbrev Tries (x : Attempt α) (s : State) (P : State → Prop) : Prop :=
  Arrives x.run s fun found t => found.isSome = true → P t

theorem Arrives.congr {y : Scan α} (heq : x s = y t) (h : Arrives y t P) :
  Arrives x s P
  := by
  obtain ⟨a, u, hy, hP⟩ := h
  exact ⟨a, u, heq.trans hy, hP⟩

/-! ### Steps in turn -/

theorem Arrives.pure (h : P a s) :
  Arrives (pure a) s P
  := ⟨a, s, rfl, h⟩

theorem Arrives.bind (h : Arrives x s P) (hnext : ∀ a t, P a t → Arrives (f a) t Q) :
  Arrives (x >>= f) s Q
  := by
  obtain ⟨a, t, hx, hP⟩ := h
  obtain ⟨b, u, hf, hQ⟩ := hnext a t hP
  exact ⟨b, u, runs_bind.mpr ⟨a, t, hx, hf⟩, hQ⟩

theorem Arrives.mono (h : Arrives x s P) (himp : ∀ a t, P a t → P' a t) :
  Arrives x s P'
  := by
  obtain ⟨a, t, hx, hP⟩ := h
  exact ⟨a, t, hx, himp a t hP⟩

theorem Arrives.ite {p : Prop} [Decidable p] {y : Scan α} (hpos : p → Arrives x s P)
    (hneg : ¬ p → Arrives y s P) :
  Arrives (if p then x else y) s P
  := by
  split
  · next h => exact hpos h
  · next h => exact hneg h

/-- One step of an attempt and those behind it. -/
theorem Tries.attempt {x : Attempt α} {f : α → Attempt β} {P : State → Prop}
    {Q : Option β → State → Prop} (h : Tries x s P) (hnone : ∀ t, Q none t)
    (hnext : ∀ a t, P t → Arrives (f a).run t Q) :
  Arrives (x >>= f).run s Q
  := by
  rw [OptionT.run_bind]
  apply Arrives.bind h
  intro found t hP
  cases found with
  | some a => exact hnext a t (hP rfl)
  | none => exact .pure (hnone t)

/-- One step of an attempt, which has found nothing if the step has not. -/
theorem Tries.step {x : Attempt α} {f : α → Attempt β} {P Q : State → Prop} (h : Tries x s P)
    (hnext : ∀ a t, P t → Arrives (f a).run t fun found u => found.isSome = true → Q u) :
  Arrives (x >>= f).run s fun found u => found.isSome = true → Q u
  := h.attempt (fun _ hfound => absurd hfound Bool.false_ne_true) hnext

theorem Tries.bind {x : Attempt α} {f : α → Attempt β} {P Q : State → Prop} (h : Tries x s P)
    (hnext : ∀ a t, P t → Tries (f a) t Q) :
  Tries (x >>= f) s Q
  := h.step hnext

theorem Tries.mono {x : Attempt α} {P Q : State → Prop} (h : Tries x s P)
    (himp : ∀ t, P t → Q t) :
  Tries x s Q
  := Arrives.mono h fun _ t hP hfound => himp t (hP hfound)

/-- A step that finds something in any case. -/
theorem Arrives.some {P : State → Prop} (h : Arrives x s fun _ => P) :
  Arrives (some <$> x) s fun found t => found.isSome = true → P t
  := by
  rw [map_eq_pure_bind]
  exact h.bind fun a t hP => .pure fun _ => hP

/-- Nothing is found. -/
theorem Arrives.none {P : State → Prop} :
  Arrives (Pure.pure none) s fun (found : Option α) t => found.isSome = true → P t
  := .pure fun hfound => absurd hfound Bool.false_ne_true

/-! ### Single steps -/

section Single

theorem arrives_of_runs (h : Runs x s a t) :
  Arrives (x >>= f) s Q ↔ Arrives (f a) t Q
  := by
  have hx : x s = .ok (a, t) := h
  constructor
  · rintro ⟨b, u, hf, hQ⟩
    obtain ⟨a', t', hx', hf⟩ := runs_bind.mp hf
    obtain ⟨rfl, rfl⟩ := Prod.mk.inj (Except.ok.inj (hx.symm.trans hx'))
    exact ⟨b, u, hf, hQ⟩
  · rintro ⟨b, u, hf, hQ⟩
    exact ⟨b, u, runs_bind.mpr ⟨a, t, h, hf⟩, hQ⟩

theorem arrives_rest {f : List Char → Scan β} :
  Arrives (rest >>= f) s Q ↔ Arrives (f s.rest) s Q
  := arrives_of_runs rfl

theorem arrives_position {f : Nat → Scan β} :
  Arrives (position >>= f) s Q ↔ Arrives (f s.pos) s Q
  := arrives_of_runs rfl

theorem arrives_take {count : Nat} {f : List Char → Scan β} :
  Arrives (take count >>= f) s Q ↔ Arrives (f (s.rest.take count)) (s.after count) Q
  := arrives_of_runs rfl

theorem arrives_skip {count : Nat} {f : Unit → Scan β} :
  Arrives (skip count >>= f) s Q ↔ Arrives (f ()) (s.after count) Q
  := arrives_of_runs rfl

theorem arrives_takeWhile {kind : Char → Bool} {f : List Char → Scan β} :
  Arrives (takeWhile kind >>= f) s Q ↔
    Arrives (f (s.rest.takeWhile kind)) (s.after (s.rest.takeWhile kind).length) Q
  := arrives_of_runs (runs_takeWhile.mpr ⟨rfl, rfl⟩)

theorem arrives_spanFrom {start : Nat} {f : Span → Scan β} :
  Arrives (spanFrom start >>= f) s Q ↔ Arrives (f ⟨start, s.pos⟩) s Q
  := arrives_of_runs rfl

theorem arrives_get {f : State → Scan β} :
  Arrives (get >>= f) s Q ↔ Arrives (f s) s Q
  := arrives_of_runs rfl

theorem arrives_set {f : PUnit → Scan β} :
  Arrives (set t >>= f) s Q ↔ Arrives (f ⟨⟩) t Q
  := arrives_of_runs rfl

end Single

end UtilityClasses.Scan
