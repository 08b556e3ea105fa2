import UtilityClasses.Cursor.Allocator
import UtilityClasses.Proofs.Arena.Passes

/-!
# Credit

Every expression is paid for by a byte that has been passed. A state has credit if more bytes have
been passed than there are expressions: a byte that is passed adds to it, and an expression that is
stored takes from it. As long as there is credit, an arena has room that can hold as many
expressions as the source has bytes, and `Same` says of two readings, one for each way to store
expressions, that they do the same.
-/

namespace UtilityClasses.Cursor

open Text (byteSize)

variable {α β γ σ : Type} {source : List Char} {s t : State} {count k : Nat}

/-! ### Bytes -/

/-- The byte `count` bytes ahead of the cursor, zero past the end. -/
def State.byteAt (source : List Char) (count : Nat) (s : State) : UInt8 :=
  (encode source)[s.pos + count]?.getD 0

theorem lt_of_byteAt (h : s.byteAt source count ≠ 0) :
  s.pos + count < byteSize source
  := by
  rw [← length_encode]
  by_contra hle
  exact h (by rw [State.byteAt, List.getElem?_eq_none (Nat.le_of_not_lt hle), Option.getD_none])

theorem ne_zero_of_eq_byte {b : UInt8} {c : Char} (h : b = byte c) (hc : byte c ≠ 0) :
  b ≠ 0
  := h ▸ hc

/-- The bytes from the cursor on start with the one at the cursor. -/
theorem drop_encode_eq_cons (h : s.byteAt source 0 ≠ 0) :
  (encode source).drop s.pos = s.byteAt source 0 :: (encode source).drop (s.pos + 1)
  := by
  have hlt := lt_of_byteAt h
  rw [Nat.add_zero, ← length_encode] at hlt
  have hbyte : s.byteAt source 0 = (encode source)[s.pos] := by
    rw [State.byteAt, Nat.add_zero, List.getElem?_eq_getElem hlt, Option.getD_some]
  rw [hbyte, List.drop_eq_getElem_cons hlt]

/-! ### What has been paid for -/

/-- The cursor is inside the source, and it has passed `count` bytes more than there are
expressions. -/
structure State.Credit (source : List Char) (count : Nat) (s : State) : Prop where
  inside : s.pos ≤ byteSize source
  covers : s.arena.size + count ≤ s.pos

theorem State.Credit.mono (h : s.Credit source k) (hle : count ≤ k) :
  s.Credit source count
  := ⟨h.inside, Nat.le_trans (Nat.add_le_add_left hle _) h.covers⟩

/-- Bytes that are passed add to the credit. -/
theorem State.Ahead.credit (hahead : State.Ahead source s t) (h : s.Credit source k)
    (hle : s.pos + count ≤ t.pos) :
  t.Credit source (k + count)
  := by
  obtain ⟨hinside, -, harena⟩ := hahead
  have hcovers := h.covers
  refine ⟨hinside, ?_⟩
  rw [harena]
  omega

/-! ### Two readings that do the same -/

/-- From the state `s` on, both readings do the same, and `Q` holds of the result and of where they
end. -/
def Same (source : List Char) (s : State) (x y : Reading α) (Q : α → State → Prop) : Prop :=
  x source s = y source s ∧ ∀ ⦃a t⦄, y source s = .ok (a, t) → Q a t

/-- From the state `s` on, `Q` holds of the result and of where the reading ends. -/
abbrev Ends (source : List Char) (s : State) (x : Reading α) (Q : α → State → Prop) : Prop :=
  Same source s x x Q

/-- If something has been found, then `P` holds of it and of where the trial ends. -/
def Tried (P : α → State → Prop) (found : Option α) (s : State) : Prop :=
  ∀ a, found = some a → P a s

/-- `I` holds before the next round, or `Q` holds of the result. -/
def Goes (I : σ → State → Prop) (Q : α → State → Prop) (round : Round σ α) (s : State) : Prop :=
  match round with
  | .again next => I next s
  | .done result => Q result s

namespace Same

variable {x y : Reading α} {f g : α → Reading β} {Q Q' : α → State → Prop} {R : β → State → Prop}

theorem pure {a : α} (h : Q a s) :
  Ends source s (pure a) Q
  := by
  refine ⟨rfl, ?_⟩
  rintro _ _ ⟨⟩
  exact h

theorem throw {halt : Halt} :
  Ends source s (throw halt) Q
  := ⟨rfl, nofun⟩

theorem fail {cause : SourceError.Cause} {start : Nat} :
  Ends source s (fail cause start) Q
  := ⟨rfl, nofun⟩

theorem mono (h : Same source s x y Q) (himp : ∀ a t, Q a t → Q' a t) :
  Same source s x y Q'
  := ⟨h.1, fun _ _ hrun => himp _ _ (h.2 hrun)⟩

theorem bind (h : Same source s x y Q) (hnext : ∀ a t, Q a t → Same source t (f a) (g a) R) :
  Same source s (x >>= f) (y >>= g) R
  := by
  rw [Same, bind_apply, bind_apply, h.1]
  cases hrun : y source s with
  | error halt => exact ⟨rfl, nofun⟩
  | ok result => exact hnext _ _ (h.2 hrun)

theorem and (h : Same source s x y Q) (h' : Same source s x y Q') :
  Same source s x y fun a t => Q a t ∧ Q' a t
  := ⟨h.1, fun _ _ hrun => ⟨h.2 hrun, h'.2 hrun⟩⟩

theorem ite {p : Prop} [Decidable p] {x' y' : Reading α} (hpos : p → Same source s x y Q)
    (hneg : ¬ p → Same source s x' y' Q) :
  Same source s (if p then x else x') (if p then y else y') Q
  := by
  split
  · next hp => exact hpos hp
  · next hp => exact hneg hp

theorem discard (h : Same source s x y Q) :
  Same source s (discard x) (discard y) fun _ t => ∃ a, Q a t
  := by
  rw [← bind_pure (Functor.discard x), ← bind_pure (Functor.discard y), Scan.discard_bind,
    Scan.discard_bind]
  exact h.bind fun a t hQ => .pure ⟨a, hQ⟩

/-- Two loops do the same if their rounds do, as long as an invariant holds. -/
theorem rounds {round round' : σ → Reading (Round σ α)} {start : σ} {I : σ → State → Prop}
    (hstart : I start s)
    (hround : ∀ now t, I now t → Same source t (round now) (round' now) (Goes I Q)) :
  Same source s (Cursor.rounds round start) (Cursor.rounds round' start) Q
  := by
  -- The induction is on the number of bytes that are left, as the recursion is.
  induction start, s using Cursor.rounds.induct round' source with
  | case1 now t halt hrun =>
    rw [Same, Cursor.rounds, Cursor.rounds, (hround now t hstart).1, hrun]
    refine ⟨rfl, ?_⟩
    rintro _ _ ⟨⟩
  | case2 now t result t' hrun =>
    obtain ⟨heq, hQ⟩ := hround now t hstart
    rw [Same, Cursor.rounds, Cursor.rounds, heq, hrun]
    refine ⟨rfl, ?_⟩
    rintro _ _ ⟨⟩
    exact hQ hrun
  | case3 now t next t' hrun hlt ih =>
    obtain ⟨heq, hI⟩ := hround now t hstart
    rw [Same, Cursor.rounds, Cursor.rounds, heq, hrun]
    simp only [if_pos hlt]
    exact ih (hI hrun)
  | case4 now t next t' hrun hlt =>
    rw [Same, Cursor.rounds, Cursor.rounds, (hround now t hstart).1, hrun]
    simp only [if_neg hlt]
    refine ⟨trivial, ?_⟩
    rintro _ _ ⟨⟩

/-! ### Trials -/

/-- Nothing has been found. -/
theorem none {P : α → State → Prop} :
  Ends source s (Pure.pure none) (Tried P)
  := .pure nofun

/-- Something is found in any case. -/
theorem some (h : Same source s x y Q) :
  Same source s (some <$> x) (some <$> y) (Tried Q)
  := by
  rw [map_eq_pure_bind, map_eq_pure_bind]
  apply h.bind
  intro a t hQ
  apply Same.pure
  rintro _ ⟨⟩
  exact hQ

/-- Something has been found. -/
theorem found {a : α} {P : α → State → Prop} (h : P a s) :
  Ends source s (Pure.pure (Option.some a)) (Tried P)
  := by
  apply Same.pure
  rintro _ ⟨⟩
  exact h

/-- One step of a trial and those behind it. -/
theorem tries {x y : Trial α} {f g : α → Trial β} (h : Same source s x.run y.run (Tried Q))
    (hnext : ∀ a t, Q a t → Same source t (f a).run (g a).run (Tried R)) :
  Same source s (x >>= f).run (y >>= g).run (Tried R)
  := by
  rw [OptionT.run_bind, OptionT.run_bind]
  apply h.bind
  intro found t hQ
  cases found with
  | none => exact .none
  | some a => exact hnext a t (hQ a rfl)

theorem trialRounds {round round' : σ → Trial (Round σ α)} {start : σ} {I : σ → State → Prop}
    (hstart : I start s)
    (hround : ∀ now t, I now t →
      Same source t (round now).run (round' now).run (Tried (Goes I Q))) :
  Same source s (Trial.rounds round start).run (Trial.rounds round' start).run (Tried Q)
  := by
  apply Same.rounds hstart
  intro now t hI
  rw [Trial.round, Trial.round]
  apply (hround now t hI).bind
  intro found u hgoes
  cases found with
  | none =>
    apply Same.pure
    rintro _ ⟨⟩
  | some round =>
    replace hgoes := hgoes round rfl
    cases round with
    | again next => exact .pure hgoes
    | done result =>
      apply Same.pure
      rintro _ ⟨⟩
      exact hgoes

end Same

/-! ### Looking at bytes -/

section Look

variable {b : α} {Q : β → State → Prop}

theorem same_position {f g : Nat → Reading β} :
  Same source s (position >>= f) (position >>= g) Q ↔ Same source s (f s.pos) (g s.pos) Q
  := Iff.rfl

theorem same_byteAhead {f g : UInt8 → Reading β} :
  Same source s (byteAhead count >>= f) (byteAhead count >>= g) Q ↔
    Same source s (f (s.byteAt source count)) (g (s.byteAt source count)) Q
  := Iff.rfl

theorem same_current {f g : UInt8 → Reading β} :
  Same source s (current >>= f) (current >>= g) Q ↔
    Same source s (f (s.byteAt source 0)) (g (s.byteAt source 0)) Q
  := same_byteAhead

theorem same_peek {f g : UInt8 → Reading β} :
  Same source s (peek >>= f) (peek >>= g) Q ↔
    Same source s (f (s.byteAt source 1)) (g (s.byteAt source 1)) Q
  := same_byteAhead

theorem same_get {f g : State → Reading β} :
  Same source s (get >>= f) (get >>= g) Q ↔ Same source s (f s) (g s) Q
  := Iff.rfl

/-- Whatever is looked up, both readings go on where they are. -/
theorem Looks.step {x : Reading α} {f g : α → Reading β} (hx : Looks x)
    (hnext : ∀ a, Same source s (f a) (g a) Q) :
  Same source s (x >>= f) (x >>= g) Q
  := by
  have hends : Ends source s x fun _ t => t = s := ⟨rfl, fun _ _ hrun => hx hrun⟩
  apply hends.bind
  rintro a _ rfl
  exact hnext a

end Look

/-! ### Passing over text -/

section Pass

variable {x : Reading α} {f g : α → Reading β} {Q : β → State → Prop}

theorem Passes.ends (hx : Passes x) (h : s.Credit source k) :
  Ends source s x fun _ t => t.Credit source k
  := by
  refine ⟨rfl, fun _ t hrun => ?_⟩
  have hahead := hx h.inside hrun
  have hle : s.pos + 0 ≤ t.pos := hahead.le
  exact hahead.credit h hle

/-- No credit is lost. -/
theorem Passes.step (hx : Passes x) (h : s.Credit source k)
    (hnext : ∀ a t, t.Credit source k → Same source t (f a) (g a) Q) :
  Same source s (x >>= f) (x >>= g) Q
  := (hx.ends h).bind hnext

theorem Passes.endsAhead (hx : Passes x) (hs : s.pos ≤ byteSize source) :
  Ends source s x fun _ t => State.Ahead source s t
  := ⟨rfl, fun _ _ hrun => hx hs hrun⟩

/-- No credit is lost, and the cursor is still where it could go back. -/
theorem Passes.stepAhead (hx : Passes x) (h : t.Credit source k) (hahead : State.Ahead source s t)
    (hnext : ∀ a u, u.Credit source k → State.Ahead source s u → Same source u (f a) (g a) Q) :
  Same source t (x >>= f) (x >>= g) Q
  := ((hx.ends h).and (hx.endsAhead h.inside)).bind fun a u hu =>
    hnext a u hu.1 (hahead.trans hu.2)

/-- The credit is what it had been where the cursor goes back to. -/
theorem State.Credit.back (h : s.Credit source k) (hahead : State.Ahead source s t) {a : α} :
  Ends source t (do moveTo s.pos; return a) fun b u => b = a ∧ u.Credit source k
  := by
  refine ⟨rfl, fun b u hrun => ?_⟩
  obtain ⟨_, _, hmove, ⟨⟩⟩ := exists_of_bind hrun
  have hback := hahead.moveTo (Nat.le_refl _) hmove
  have hle : s.pos + 0 ≤ u.pos := hback.le
  exact ⟨rfl, hback.credit h hle⟩

/-- The byte that has been looked for is the one at the cursor. -/
theorem State.Credit.seek (h : s.Credit source k) {stops : List UInt8} :
  Ends source s (seek stops) fun b t => t.Credit source k ∧ t.byteAt source 0 = b
  := by
  refine looks_ahead.step fun bytes => ?_
  rw [← bind_assoc]
  apply passes_moveOn.step h
  rintro _ t ht
  refine ⟨rfl, ?_⟩
  rintro _ _ ⟨⟩
  exact ⟨ht, rfl⟩

/-- A byte that is there is passed. -/
theorem State.Credit.advanceBy (h : s.Credit source k) (hzero : s.byteAt source 0 ≠ 0) :
  Ends source s (advanceBy (count + 1)) fun _ t => t.Credit source (k + 1)
  := by
  refine ⟨rfl, fun _ t hrun => (passes_advanceBy h.inside hrun).credit h ?_⟩
  have hlt := lt_of_byteAt hzero
  obtain rfl := ok_of_advanceBy hrun
  exact Nat.le_min.mpr ⟨by omega, hlt⟩

/-- The byte at the cursor is passed, and it is known. -/
theorem State.Credit.advance {f g : Unit → Reading β} (h : s.Credit source k) {c : Char}
    (hb : s.byteAt source 0 = byte c) (hc : byte c ≠ 0)
    (hnext : ∀ t, t.Credit source (k + 1) → Same source t (f ()) (g ()) Q) :
  Same source s (Cursor.advance >>= f) (Cursor.advance >>= g) Q
  := (h.advanceBy (hb ▸ hc)).bind fun _ => hnext

/-- A byte of the class is at the cursor, so one is passed. -/
theorem State.Credit.eatWhile {kind : UInt8 → Bool} (h : s.Credit source k)
    (hzero : s.byteAt source 0 ≠ 0) (hkind : kind (s.byteAt source 0) = true) :
  Ends source s (eatWhile kind) fun _ t => t.Credit source (k + 1)
  := by
  refine ⟨rfl, fun _ t hrun => (passes_eatWhile h.inside hrun).credit h ?_⟩
  obtain ⟨-, rfl⟩ := ok_of_eatWhile hrun
  rw [drop_encode_eq_cons hzero, List.takeWhile_cons_of_pos hkind, List.length_cons]
  dsimp only
  omega

end Pass

/-! ### Storing -/

/-- An expression is stored as long as there are fewer of them than the source has bytes. -/
def Allocator.Suits (alloc : Allocator) (source : List Char) : Prop :=
  ∀ shape span s, s.arena.size < byteSize source →
    alloc.store shape span source s = Cursor.store shape span source s

theorem suits_within {capacity : Nat} (full : Reading Scan.Node)
    (hcapacity : byteSize source ≤ capacity) :
  (Allocator.within capacity full).Suits source
  := by
  intro shape span s hlt
  change (if s.arena.size < capacity then Cursor.store shape span else full) source s = _
  rw [if_pos (Nat.lt_of_lt_of_le hlt hcapacity)]

section Store

variable {alloc : Allocator} (halloc : alloc.Suits source) {shape : ExprShape} {span : Span}
  {start : Nat}
include halloc

/-- An expression that is stored has been paid for. -/
theorem Allocator.Suits.store (h : s.Credit source (k + 1)) :
  Same source s (alloc.store shape span) (Cursor.store shape span) fun _ t => t.Credit source k
  := by
  obtain ⟨hinside, hcovers⟩ := h
  refine ⟨halloc shape span s (by omega), ?_⟩
  rintro _ _ ⟨⟩
  refine ⟨hinside, ?_⟩
  simp only [Array.size_push]
  omega

/-- An expression that ends where the cursor is. -/
theorem Allocator.Suits.storeFrom (h : s.Credit source (k + 1)) :
  Same source s (do
      let span ← spanFrom start
      some <$> alloc.store shape span)
    (do
      let span ← spanFrom start
      some <$> Cursor.store shape span)
    (Tried fun _ t => t.Credit source k)
  := looks_spanFrom.step fun _ => (halloc.store h).some

end Store

end UtilityClasses.Cursor
