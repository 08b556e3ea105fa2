import Mathlib.Tactic.Common
import UtilityClasses.Scan.State

/-!
# Steps in a row

What an attempt does when it is run, and steps whose results are dropped, over any monad.
-/

namespace UtilityClasses.Scan

variable {α β : Type} {m : Type → Type}

section Bind

variable [Monad m] [LawfulMonad m]

theorem run_lift_bind (x : m α) (f : α → OptionT m β) :
  ((liftM x : OptionT m α) >>= f).run = x >>= fun a => (f a).run
  := by
  rw [OptionT.run_bind, OptionT.run_monadLift]
  simp [Option.elimM]

theorem run_lift (x : m α) :
  (liftM x : OptionT m α).run = some <$> x
  := OptionT.run_monadLift x

theorem run_guard_bind (p : Prop) [Decidable p] (f : Unit → OptionT m β) :
  ((guard p : OptionT m Unit) >>= f).run = if p then (f ()).run else pure none
  := by
  by_cases h : p <;> simp [guard, h]

theorem discard_bind (x : m α) (f : Unit → m β) :
  (discard x >>= f) = (x >>= fun _ => f ())
  := by
  have hmap : discard x = (fun _ => ()) <$> x := congrFun (congrFun LawfulFunctor.map_const _) x
  rw [hmap, bind_map_left]

end Bind

theorem run_ite (p : Prop) [Decidable p] (x y : OptionT m α) :
  (if p then x else y).run = if p then x.run else y.run
  := by
  split <;> rfl

end UtilityClasses.Scan
