import UtilityClasses.Proofs.Region.Expression

/-!
# Regions and the scan of code

Reading a region refines the scan of code: where the scan of well-bracketed code comes to a stop, a
region that starts at the same place ends too, and the elements that it has recorded are those that
the scan has recorded. It does not matter how much of the code is an expression.
-/

namespace UtilityClasses.Scan

open Cursor (AreStops)

variable {context : Context} {stops : List Char} {s e : State}

/-- From `s` to the first stop outside all brackets, every closing bracket closes the innermost
open one, in the code and in the holes of its templates. -/
def WellBracketed (dialect : Dialect) (stops : List Char) (s : State) : Prop :=
  ∃ e, Balanced dialect stops .operator [] s e

/-- There is only one place at which the scan of code can come to a stop. -/
theorem WellBracketed.balanced (h : WellBracketed context.dialect stops s)
    (hstops : AreStops stops) (hcontext : context.Ample s.rest.length)
    (hcode : Runs (code context stops) s true e) :
  Balanced context.dialect stops .operator [] s e
  := by
  obtain ⟨e', hbalanced⟩ := h
  have hruns : Runs (code (contextAt context.dialect s) stops) s true e' :=
    hbalanced.runs hstops (Nat.lt_succ_self _)
  have hsame : code context stops s = code (contextAt context.dialect s) stops s :=
    Cursor.code_eq hcontext (ample_contextAt _ (Nat.le_refl _)) rfl hstops
  obtain ⟨-, rfl⟩ := Prod.mk.inj (Except.ok.inj (hcode.symm.trans (hsame.trans hruns)))
  exact hbalanced

/-- If the scan of code comes to a stop at `e`, and the code up to there is well-bracketed, then a
region that starts where the scan has started does not fail. It ends at `e`, with the same elements,
of which only the expressions may have other numbers. -/
theorem region_refines_code (hcontext : context.Ample s.rest.length) (hstops : AreStops stops)
    (hcode : Runs (code context stops) s true e)
    (hbrackets : WellBracketed context.dialect stops s) :
  ∃ node t, Runs (region context stops) s node t ∧ Related s t e
  := by
  have hbalanced := hbrackets.balanced hstops hcontext hcode
  let track : Track := ⟨s, context.dialect, stops, hstops, e⟩
  have hkeeps : context.Keeps track.dialect s.rest.length := hcontext.keeps
  have hinStep : track.InStep .operator [] s := track.inStep_base hbalanced
  obtain ⟨node, t, hregion, hfinish⟩ := arrives_region hkeeps hinStep
  exact ⟨node, t, hregion, hfinish⟩

/-- A call with an argument that is an element and an argument that is not dealt with. -/
def callAt (count : Nat) (elements : Array Element) : State :=
  ⟨"f(<i/>, x => [1])\x7d".toList.drop count, count, elements, #[]⟩

theorem balanced_callAt :
  Balanced .jsx ['\x7d'] .operator [] (callAt 0 #[]) (callAt 17 #[⟨"i", ⟨2, 6⟩, []⟩])
  := by
  have plain {stack : List Char} {prev prev' : Previous} {s t u e : State} {c : Char}
      (h : Next s c t) (hc : closing? c = none ∧ ¬ IsClosing c ∧ c ≠ '\x60' ∧ c ∉ ['\x7d'])
      (hlexeme : Runs (lexeme (contextAt .jsx t) ⟨0, prev⟩ c) t ⟨0, prev'⟩ u)
      (hnext : Balanced .jsx ['\x7d'] prev' stack u e) :
      Balanced .jsx ['\x7d'] prev stack s e :=
    .other h hc.1 hc.2.1 hc.2.2.1 (fun _ => hc.2.2.2) hlexeme hnext
  let after (count : Nat) : State := callAt count #[⟨"i", ⟨2, 6⟩, []⟩]
  refine plain (t := callAt 0 #[]) (c := 'f') (u := callAt 1 #[]) ⟨rfl, rfl⟩ (by decide) rfl ?_
  refine .opening (t := callAt 1 #[]) (c := '(') ⟨rfl, rfl⟩ rfl (by simp) ?_
  refine plain (t := callAt 2 #[]) (c := '<') (u := after 6) ⟨rfl, rfl⟩ (by decide) rfl ?_
  refine plain (t := after 6) (c := ',') (u := after 7) ⟨rfl, rfl⟩ (by decide) rfl ?_
  refine plain (t := after 8) (c := 'x') (u := after 9) ⟨rfl, rfl⟩ (by decide) rfl ?_
  refine plain (t := after 10) (c := '=') (u := after 11) ⟨rfl, rfl⟩ (by decide) rfl ?_
  refine plain (t := after 11) (c := '>') (u := after 12) ⟨rfl, rfl⟩ (by decide) rfl ?_
  refine .opening (t := after 13) (c := '[') ⟨rfl, rfl⟩ rfl (by simp) ?_
  refine plain (t := after 14) (c := '1') (u := after 15) ⟨rfl, rfl⟩ (by decide) rfl ?_
  refine .closing (t := after 15) ⟨rfl, rfl⟩ (by simp [IsClosing]) ?_
  refine .closing (t := after 16) ⟨rfl, rfl⟩ (by simp [IsClosing]) ?_
  exact .stop (c := '\x7d') ⟨rfl, rfl⟩ (by simp)

theorem region_refines_code_callAt :
  ∃ node t, Runs (region (contextAt .jsx (callAt 0 #[])) ['\x7d']) (callAt 0 #[]) node t ∧
    Related (callAt 0 #[]) t (callAt 17 #[⟨"i", ⟨2, 6⟩, []⟩])
  := region_refines_code (ample_contextAt _ (Nat.le_refl _)) (by simp [AreStops])
    (balanced_callAt.runs (by simp [AreStops]) (Nat.lt_succ_self _)) ⟨_, balanced_callAt⟩

end UtilityClasses.Scan
