import UtilityClasses.Proofs.Scan.Attempt
import UtilityClasses.Proofs.Scan.Rounds
import UtilityClasses.Proofs.Tree.Renumber

/-!
# Scans do not look at what has been found

What a scan does depends on the text that is left, and never on the elements and the expressions
that have been found before. Behind other finds it does the same and finds the same, and only the
expressions have other numbers. `Lifts base x y R` says so of a step `x` and a step `y` which is
`x` behind what has been found in the state `base`.
-/

namespace UtilityClasses.Scan

variable {α β γ δ : Type} {base s t : State}

/-! ### Finds behind others -/

/-- The number of an expression behind those that have been stored before. -/
def State.number (base : State) (id : ExprId) : ExprId :=
  base.arena.size + id

/-- Where the scan stands, with what it has found behind what had been found before. -/
def State.onto (s base : State) : State :=
  { s with
    elements := base.elements ++ s.elements.map (·.renumber base.number)
    arena := base.arena ++ s.arena.map (·.renumber base.number) }

/-- The node with another number. -/
def Node.renumber (ρ : ExprId → ExprId) (node : Node) : Node :=
  { node with id := ρ node.id }

/-- Behind what has been found in `base`, the step `y` does what `x` does if nothing has been found.
The results are related. -/
def Lifts (base : State) (x : Scan α) (y : Scan β) (R : α → β → Prop) : Prop :=
  ∀ s, (∃ a b t, Runs x s a t ∧ Runs y (s.onto base) b (t.onto base) ∧ R a b) ∨
    ∃ stop, x s = .error stop ∧ y (s.onto base) = .error stop

/-- The step does the same, whatever has been found before. -/
abbrev Uniform (base : State) (x : Scan α) : Prop :=
  Lifts base x x Eq

/-- The nodes have the same span, and the number of one is that of the other behind what has been
stored before. -/
abbrev Ids (base : State) (node node' : Node) : Prop :=
  node' = node.renumber base.number

/-! ### Steps in turn -/

section Steps

variable {x : Scan α} {y : Scan β} {f : α → Scan γ} {g : β → Scan δ} {R R' : α → β → Prop}
  {Q : γ → δ → Prop}

theorem Lifts.pure {a : α} {b : β} (h : R a b) :
  Lifts base (pure a) (pure b) R
  := fun s => .inl ⟨a, b, s, rfl, rfl, h⟩

theorem Lifts.bind (h : Lifts base x y R) (hnext : ∀ a b, R a b → Lifts base (f a) (g b) Q) :
  Lifts base (x >>= f) (y >>= g) Q
  := by
  intro s
  obtain ⟨a, b, t, hx, hy, hR⟩ | ⟨stop, hx, hy⟩ := h s
  · simp only [Runs, bind_apply, show x s = .ok (a, t) from hx,
      show y (s.onto base) = .ok (b, t.onto base) from hy]
    exact hnext a b hR t
  · exact .inr ⟨stop, by simp only [bind_apply, hx], by simp only [bind_apply, hy]⟩

/-- The first step has the same result on both sides. -/
theorem Uniform.bind {f : α → Scan γ} {g : α → Scan δ} (h : Uniform base x)
    (hnext : ∀ a, Lifts base (f a) (g a) Q) :
  Lifts base (x >>= f) (x >>= g) Q
  := by
  apply Lifts.bind h
  rintro a _ rfl
  exact hnext a

theorem Lifts.mono (h : Lifts base x y R) (himp : ∀ a b, R a b → R' a b) :
  Lifts base x y R'
  := by
  intro s
  obtain ⟨a, b, t, hx, hy, hR⟩ | herror := h s
  · exact .inl ⟨a, b, t, hx, hy, himp a b hR⟩
  · exact .inr herror

theorem Lifts.ite {p : Prop} [Decidable p] {x' : Scan α} {y' : Scan β}
    (hpos : p → Lifts base x y R) (hneg : ¬ p → Lifts base x' y' R) :
  Lifts base (if p then x else x') (if p then y else y') R
  := by
  split
  · next hp => exact hpos hp
  · next hp => exact hneg hp

theorem Uniform.discard (h : Uniform base x) :
  Uniform base (discard x)
  := by
  rw [← bind_pure (Functor.discard x), discard_bind]
  exact h.bind fun _ => .pure rfl

/-- One step of an attempt and those behind it. -/
theorem Lifts.attempt {x : Attempt α} {y : Attempt β} {f : α → Attempt γ} {g : β → Attempt δ}
    (h : Lifts base x.run y.run (Option.Rel R))
    (hnext : ∀ a b, R a b → Lifts base (f a).run (g b).run (Option.Rel Q)) :
  Lifts base (x >>= f).run (y >>= g).run (Option.Rel Q)
  := by
  rw [OptionT.run_bind, OptionT.run_bind]
  apply Lifts.bind h
  intro _ _ hfound
  cases hfound with
  | some hR => exact hnext _ _ hR
  | none => exact .pure .none

/-- A step that finds something in any case. -/
theorem Lifts.some (h : Lifts base x y R) :
  Lifts base (some <$> x) (some <$> y) (Option.Rel R)
  := by
  rw [map_eq_pure_bind, map_eq_pure_bind]
  exact h.bind fun _ _ hR => .pure (.some hR)

end Steps

/-! ### Single steps -/

theorem uniform_throw {stop : Stop} {R : α → β → Prop} :
  Lifts base (throw stop) (throw stop) R
  := fun _ => .inr ⟨stop, rfl, rfl⟩

theorem uniform_exhaust {R : α → β → Prop} :
  Lifts base exhaust exhaust R
  := uniform_throw

theorem uniform_rest :
  Uniform base rest
  := fun s => .inl ⟨_, _, s, rfl, rfl, rfl⟩

theorem uniform_position :
  Uniform base position
  := fun s => .inl ⟨_, _, s, rfl, rfl, rfl⟩

theorem uniform_spanFrom {start : Nat} :
  Uniform base (spanFrom start)
  := uniform_position.bind fun _ => .pure rfl

theorem uniform_fail {cause : SourceError.Cause} {start : Nat} {R : α → β → Prop} :
  Lifts base (fail cause start) (fail cause start) R
  := uniform_spanFrom.bind fun _ => uniform_throw

theorem uniform_take {count : Nat} :
  Uniform base (take count)
  := fun s => .inl ⟨_, _, s.after count, rfl, rfl, rfl⟩

theorem uniform_skip {count : Nat} :
  Uniform base (skip count)
  := uniform_take.discard

theorem uniform_takeWhile {kind : Char → Bool} :
  Uniform base (takeWhile kind)
  := uniform_rest.bind fun _ => uniform_take

/-- The scan remembers where it stands. -/
theorem lifts_get :
  Lifts base (get : Scan State) get fun s s' => s' = s.onto base
  := fun s => .inl ⟨s, _, s, rfl, rfl, rfl⟩

/-- The scan goes back to where it stood. -/
theorem lifts_set :
  Lifts base (set s) (set (s.onto base)) Eq
  := fun _ => .inl ⟨_, _, s, rfl, rfl, rfl⟩

theorem onto_push_element (s : State) (element : Element) :
  State.onto { s with elements := s.elements.push element } base =
    { s.onto base with elements := (s.onto base).elements.push (element.renumber base.number) }
  := by
  simp only [State.onto, Array.map_push, Array.append_push]

theorem onto_push_expr (s : State) (expr : Expr) :
  State.onto { s with arena := s.arena.push expr } base =
    { s.onto base with arena := (s.onto base).arena.push (expr.renumber base.number) }
  := by
  simp only [State.onto, Array.map_push, Array.append_push]

theorem lifts_record {element : Element} :
  Lifts base (record element) (record (element.renumber base.number)) Eq
  := by
  intro s
  refine .inl ⟨(), (), { s with elements := s.elements.push element }, rfl, ?_, rfl⟩
  rw [onto_push_element]
  rfl

theorem lifts_store {shape shape' : ExprShape} {span : Span}
    (h : shape' = shape.renumber base.number) :
  Lifts base (store shape span) (store shape' span) (Ids base)
  := by
  intro s
  refine .inl ⟨⟨s.arena.size, span⟩, _, { s with arena := s.arena.push ⟨shape, span⟩ }, rfl, ?_,
    rfl⟩
  have hsize : (s.onto base).arena.size = base.number s.arena.size := by
    simp [State.onto, State.number]
  rw [onto_push_expr, h, Node.renumber, ← hsize]
  rfl

/-! ### Lexemes -/

theorem uniform_skipSpacing :
  Uniform base skipSpacing
  := uniform_takeWhile.discard

theorem uniform_skipPast {needle : List Char} :
  Uniform base (skipPast needle)
  := by
  rw [skipPast]
  apply uniform_rest.bind
  intro ahead
  split
  · exact uniform_skip.bind fun _ => .pure rfl
  · exact uniform_skip.bind fun _ => .pure rfl

theorem uniform_skipTrivia :
  Uniform base skipTrivia
  := by
  rw [skipTrivia]
  apply uniform_rest.bind
  intro ahead
  split
  · exact uniform_skip
  · exact uniform_skip.bind fun _ => uniform_position.bind fun _ =>
      uniform_skip.bind fun _ => uniform_fail

theorem uniform_stringLiteral {quote : Char} :
  Uniform base (stringLiteral quote)
  := by
  rw [stringLiteral]
  apply uniform_position.bind
  intro start
  refine uniform_skip.bind fun _ => uniform_rest.bind fun _ => uniform_take.bind fun body =>
    uniform_rest.bind fun ahead => ?_
  split
  · exact uniform_skip.bind fun _ => uniform_spanFrom.bind fun _ => .pure rfl
  · exact uniform_fail

theorem uniform_skipRegex :
  Uniform base skipRegex
  := by
  rw [skipRegex]
  apply uniform_rest.bind
  intro ahead
  split
  · exact uniform_skip.bind fun _ => uniform_takeWhile.discard.bind fun _ => .pure rfl
  · exact .pure rfl

end UtilityClasses.Scan
