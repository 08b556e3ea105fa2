import UtilityClasses.Proofs.Cursor.Code
import UtilityClasses.Proofs.Scan.Attempt

/-!
# Trials and attempts

A trial of the cursor mirrors an attempt of the scan if both find the same or both give up.
-/

namespace UtilityClasses.Cursor

open Scan (Runs)

variable {α β γ δ σ : Type} {source : List Char} {s t : Scan.State}

/-! ### Mirroring -/

variable {x : Trial α} {y : Attempt α} {f : α → Trial γ} {g : α → Attempt δ}
  {R : Option γ → Option δ → Scan.State → Prop}

/-- Both go on with what they have found, or both have given up. -/
theorem Mirrors.attempt (h : Mirrors source s x.run y.run)
    (hnone : ∀ t, Follows s t → R none none t)
    (hnext : ∀ a t, Runs y.run s (some a) t → Follows s t →
      Agrees source t (f a).run (g a).run R) :
  Agrees source s (x >>= f).run (y >>= g).run R
  := by
  rw [OptionT.run_bind, OptionT.run_bind]
  apply Mirrors.bind h
  intro found t ht hfollows
  cases found with
  | none => exact .pure (hnone t hfollows)
  | some a => exact hnext a t ht hfollows

/-- Both go on with what they have found. -/
theorem Mirrors.tries {f : α → Trial γ} {g : α → Attempt γ} (h : Mirrors source s x.run y.run)
    (hnext : ∀ a t, Runs y.run s (some a) t → Follows s t →
      Agrees source t (f a).run (g a).run fun a b u => a = b ∧ Follows s u) :
  Mirrors source s (x >>= f).run (y >>= g).run
  := h.attempt (fun _ hfollows => ⟨rfl, hfollows⟩) hnext

/-- A result that is there in any case. -/
theorem Mirrors.found {x : Reading α} {y : Scan α} (h : Mirrors source s x y) :
  Mirrors source s (some <$> x) (some <$> y)
  := by
  rw [Mirrors, map_eq_pure_bind, map_eq_pure_bind]
  apply h.bind
  intro a t _ hfollows
  exact .pure ⟨rfl, hfollows⟩

/-- A result is stored, and there is nothing left to try. -/
theorem mirrors_some_store {shape : ExprShape} {start : Nat} :
  Mirrors source s (do
      let span ← spanFrom start
      some <$> store shape span)
    (do
      let span ← Scan.spanFrom start
      some <$> Scan.store shape span)
  := by
  rw [Mirrors, agrees_spanFrom, agrees_scan_spanFrom]
  exact mirrors_store.found

/-! ### Loops -/

/-- A round that is the last one, or in which something is passed. -/
def MovesIf (s t : Scan.State) : Option (Round σ α) → Prop
  | some round => Moves s t round
  | none => Follows s t

/-- A round of a loop of trials and the scan that does the same, and then the rest of the loop. -/
theorem Agrees.trialRounds {β : Type} {round : σ → Trial (Round σ γ)} {start : σ} {w : Scan β}
    {g : β → Scan δ} {P : Option (Round σ γ) → β → Scan.State → Prop}
    {Q : Option γ → δ → Scan.State → Prop} (h : Agrees source s (round start).run w P)
    (hnone : ∀ b t, P none b t → Agrees source t (Pure.pure none) (g b) Q)
    (hdone : ∀ result b t, P (some (.done result)) b t →
      Agrees source t (Pure.pure (some result)) (g b) Q)
    (hagain : ∀ next b t, P (some (.again next)) b t →
      Follows s t ∧ t.rest.length < s.rest.length ∧
        Agrees source t (Trial.rounds round next).run (g b) Q) :
  Agrees source s (Trial.rounds round start).run (w >>= g) Q
  := by
  have hround : Agrees source s (round start).round w fun r b t => ∃ found, P found b t ∧
      r = match found with
        | some (.again next) => .again next
        | some (.done result) => .done (some result)
        | none => .done none := by
    apply h.bind_left
    intro found b t _ hP
    match found with
    | some (.again _) => exact .pure ⟨_, hP, rfl⟩
    | some (.done _) => exact .pure ⟨_, hP, rfl⟩
    | none => exact .pure ⟨_, hP, rfl⟩
  apply hround.rounds
  · rintro result b t - ⟨found, hP, hr⟩
    match found with
    | some (.done _) =>
      cases hr
      exact hdone _ b t hP
    | none =>
      cases hr
      exact hnone b t hP
  · rintro next b t - ⟨found, hP, hr⟩
    match found with
    | some (.again _) =>
      cases hr
      exact hagain next b t hP

/-- A loop of trials and an attempt that goes on after a round as the loop does. -/
theorem Mirrors.trialRounds {round : σ → Trial (Round σ γ)} {start : σ}
    {item : Attempt (Round σ γ)} {loop : σ → Attempt γ}
    (h : Agrees source s (round start).run item.run fun r r' t => r = r' ∧ MovesIf s t r)
    (hagain : ∀ next t, Follows s t → t.rest.length < s.rest.length →
      Mirrors source t (Trial.rounds round next).run (loop next).run) :
  Mirrors source s (Trial.rounds round start).run (item >>= Round.goOn loop).run
  := by
  rw [OptionT.run_bind]
  apply h.trialRounds
  · rintro _ t ⟨rfl, hfollows⟩
    exact .pure ⟨rfl, hfollows⟩
  · rintro result _ t ⟨rfl, hfollows⟩
    exact .pure ⟨rfl, hfollows⟩
  · rintro next _ t ⟨rfl, hfollows, hlt⟩
    exact ⟨hfollows, hlt, (hagain next t hfollows hlt).follow hfollows⟩

end UtilityClasses.Cursor
