import Mathlib.Tactic.Common
import UtilityClasses.Patch

/-!
# What the hunks of a patch hold

The hunks come in order and hold every line that differs. A hunk starts two lines before a
difference, whether the hunk before it ends there or not, so it can share a line with that one. If
no two hunks share a line, and both texts have the same number of lines, then the patch makes the
second text out of the first; if two share a line, it cannot be applied.
-/

namespace UtilityClasses.Comparison

variable {texts : Comparison} {i j start stop : Nat} {hunk a b : Hunk}

/-! ### Where hunks start and stop -/

theorem lt_size_of_differs (h : texts.differs i = true) :
  i < texts.size
  := by
  by_contra hlt
  obtain ⟨hbefore, hafter⟩ := Nat.max_le.mp (Nat.le_of_not_lt hlt)
  simp [differs, List.getElem?_eq_none hbefore, List.getElem?_eq_none hafter] at h

/-- The line behind a hunk does not differ. -/
theorem differs_hunkStop (texts : Comparison) (stop : Nat) :
  texts.differs (texts.hunkStop stop) = false
  := by
  fun_induction hunkStop texts stop with
  | case1 stop hgo ih => exact ih
  | case2 stop hend =>
    rw [Bool.eq_false_iff]
    exact fun hdiffers => hend ⟨lt_size_of_differs hdiffers, hdiffers⟩

/-- A hunk stops two lines behind a line that differs. -/
theorem exists_hunkStop_eq (hdiffers : texts.differs j = true)
    (hstop : stop = min (j + 3) texts.size) :
  ∃ last, texts.differs last = true ∧ texts.hunkStop stop = min (last + 3) texts.size
  := by
  fun_induction hunkStop texts stop generalizing j with
  | case1 stop hgo ih => exact ih hgo.2 rfl
  | case2 stop hend => exact ⟨j, hdiffers, hstop⟩

/-- A hunk starts two lines before the line `first` and stops two lines behind the line `last`,
which both differ. -/
structure Opens (texts : Comparison) (first last : Nat) (hunk : Hunk) : Prop where
  first_differs : texts.differs first = true
  last_differs : texts.differs last = true
  start_eq : hunk.start = first - 2
  stop_eq : hunk.stop = min (last + 3) texts.size
  le_stop : min (first + 3) texts.size ≤ hunk.stop

theorem opens_hunkStop (h : texts.differs i = true) :
  ∃ last, texts.Opens i last ⟨i - 2, texts.hunkStop (min (i + 3) texts.size)⟩
  := by
  obtain ⟨last, hlast, hstop⟩ := exists_hunkStop_eq h rfl
  exact ⟨last, h, hlast, rfl, hstop, texts.le_hunkStop _⟩

theorem exists_opens (h : hunk ∈ texts.hunksFrom i) :
  ∃ first last, texts.Opens first last hunk ∧ i ≤ first
  := by
  fun_induction hunksFrom texts i with
  | case1 i hlt hdiffers stop ih =>
    rw [List.mem_cons] at h
    obtain rfl | h := h
    · obtain ⟨last, hopens⟩ := opens_hunkStop hdiffers
      exact ⟨i, last, hopens, Nat.le_refl i⟩
    · obtain ⟨first, last, hopens, hfirst⟩ := ih h
      have hle := texts.le_hunkStop (min (i + 3) texts.size)
      exact ⟨first, last, hopens, by omega⟩
  | case2 i hlt hsame ih =>
    obtain ⟨first, last, hopens, hfirst⟩ := ih h
    exact ⟨first, last, hopens, Nat.le_of_succ_le hfirst⟩
  | case3 i hend => cases h

/-- The line that opens a hunk lies behind the line at which the hunk before it stops. -/
theorem pairwise_hunksFrom (texts : Comparison) (i : Nat) :
  (texts.hunksFrom i).Pairwise fun a b => ∃ first last first' last',
    texts.Opens first last a ∧ texts.Opens first' last' b ∧ a.stop < first'
  := by
  fun_induction hunksFrom texts i with
  | case1 i hlt hdiffers stop ih =>
    refine List.pairwise_cons.mpr ⟨fun b hb => ?_, ih⟩
    obtain ⟨last, hopens⟩ := opens_hunkStop hdiffers
    obtain ⟨first', last', hopens', hle⟩ := exists_opens hb
    use i, last, first', last', hopens, hopens'
    apply Nat.lt_of_le_of_ne hle
    -- The line at which a hunk stops does not differ.
    rintro rfl
    have hsame := texts.differs_hunkStop (min (i + 3) texts.size)
    rw [hopens'.first_differs] at hsame
    cases hsame
  | case2 i hlt hsame ih => exact ih
  | case3 i hend => exact .nil

/-- A hunk that comes behind another one starts and stops behind it, and has at most one line in
common with it. -/
structure Follows (a b : Hunk) : Prop where
  start_lt : a.start < b.start
  stop_lt : a.stop < b.stop
  stop_le : a.stop ≤ b.start + 1

/-- The hunks of a patch come in order, and each of them shares at most its first line with those
before it. -/
theorem pairwise_hunks (texts : Comparison) :
  texts.hunks.Pairwise Follows
  := by
  apply (texts.pairwise_hunksFrom 0).imp
  rintro a b ⟨first, last, first', last', hopens, hopens', hlt⟩
  have hsize := lt_size_of_differs hopens'.first_differs
  have hstart := hopens.start_eq
  have hstart' := hopens'.start_eq
  have hstop := hopens.le_stop
  have hstop' := hopens'.le_stop
  constructor <;> omega

/-- The hunks of a patch share no line if there are never exactly three lines between two lines that
differ. -/
theorem pairwise_hunks_apart (hfour : ∀ i, texts.differs i = true → texts.differs (i + 4) = false) :
  texts.hunks.Pairwise fun a b => a.stop ≤ b.start
  := by
  apply (texts.pairwise_hunksFrom 0).imp
  rintro a b ⟨first, last, first', last', hopens, hopens', hlt⟩
  have hsize := lt_size_of_differs hopens'.first_differs
  have hstart := hopens'.start_eq
  have hstop := hopens.stop_eq
  have hne : first' ≠ last + 4 := by
    rintro rfl
    have hsame := hfour last hopens.last_differs
    rw [hopens'.first_differs] at hsame
    cases hsame
  omega

theorem exists_mem_hunksFrom (hle : i ≤ j) (h : texts.differs j = true) :
  ∃ hunk ∈ texts.hunksFrom i, hunk.start ≤ j ∧ j < hunk.stop
  := by
  have hsize := lt_size_of_differs h
  fun_induction hunksFrom texts i with
  | case1 i hlt hdiffers stop ih =>
    by_cases hin : j < stop
    · exact ⟨_, List.mem_cons_self, Nat.le_trans (Nat.sub_le i 2) hle, hin⟩
    · obtain ⟨hunk, hmem, hinside⟩ := ih (Nat.le_of_not_lt hin)
      exact ⟨hunk, List.mem_cons_of_mem _ hmem, hinside⟩
  | case2 i hlt hsame ih =>
    apply ih
    apply Nat.lt_of_le_of_ne hle
    rintro rfl
    exact hsame h
  | case3 i hend => omega

/-- Every line that differs is in a hunk. -/
theorem exists_mem_hunks (h : texts.differs j = true) :
  ∃ hunk ∈ texts.hunks, hunk.start ≤ j ∧ j < hunk.stop
  := exists_mem_hunksFrom (Nat.zero_le j) h

/-! ### What a hunk prints -/

/-- The line that a line of a patch stands for, if it does not stand for one of the other text, of
which the lines start with a mark. -/
def without (mark : Char) : List Char → Option (List Char)
  | [] => none
  | c :: line => if c = mark then none else some line

/-- The lines of the first text in a part of a patch. -/
def oldLines (printed : List (List Char)) : List (List Char) :=
  printed.filterMap (without '+')

/-- The lines of the second text in a part of a patch. -/
def newLines (printed : List (List Char)) : List (List Char) :=
  printed.filterMap (without '-')

/-- The lines of a hunk behind its header. -/
def body (texts : Comparison) (hunk : Hunk) : List (List Char) :=
  ((List.range hunk.stop).drop hunk.start).flatMap texts.patchLine

theorem oldLines_patchLine (texts : Comparison) (i : Nat) :
  oldLines (texts.patchLine i) = texts.before[i]?.toList
  := by
  rw [patchLine, oldLines]
  split
  · cases texts.before[i]? <;> cases texts.after[i]? <;> simp [without]
  · cases texts.before[i]? <;> simp [without]

theorem newLines_patchLine (texts : Comparison) (i : Nat) :
  newLines (texts.patchLine i) = texts.after[i]?.toList
  := by
  rw [patchLine, newLines]
  split
  · cases texts.before[i]? <;> cases texts.after[i]? <;> simp [without]
  · next hsame =>
    have hsame : texts.before[i]? = texts.after[i]? := by simpa [differs] using hsame
    rw [← hsame]
    cases texts.before[i]? <;> simp [without]

/-- The lines of a text by their numbers. -/
theorem flatMap_range_getElem? (lines : List (List Char)) (stop : Nat) :
  (List.range stop).flatMap (fun i => lines[i]?.toList) = lines.take stop
  := by
  induction stop with
  | zero => rfl
  | succ stop ih =>
    rw [List.range_succ, List.flatMap_append, ih, List.take_add_one, List.flatMap_singleton]

theorem flatMap_drop_range_getElem? (lines : List (List Char)) (start stop : Nat) :
  ((List.range stop).drop start).flatMap (fun i => lines[i]?.toList) =
    (lines.take stop).drop start
  := by
  by_cases hle : start ≤ stop
  · have hall := flatMap_range_getElem? lines stop
    have hfirst : (List.range stop).take start = List.range start := by
      rw [List.take_range, Nat.min_eq_left hle]
    rw [← List.take_append_drop start (List.range stop), List.flatMap_append, hfirst,
      flatMap_range_getElem?] at hall
    rw [← List.take_append_drop start (lines.take stop), List.take_take,
      Nat.min_eq_left hle] at hall
    exact List.append_cancel_left hall
  · have hlt := Nat.le_of_not_le hle
    rw [List.drop_eq_nil_of_le (by simpa using hlt), List.drop_eq_nil_of_le, List.flatMap_nil]
    exact Nat.le_trans (List.length_take_le stop lines) hlt

/-- A hunk holds exactly the lines of its range, of both texts. -/
theorem oldLines_body (texts : Comparison) (hunk : Hunk) :
  oldLines (texts.body hunk) = (texts.before.take hunk.stop).drop hunk.start
  := by
  rw [← flatMap_drop_range_getElem?, body, oldLines, List.filterMap_flatMap]
  congr 1
  funext i
  exact texts.oldLines_patchLine i

theorem newLines_body (texts : Comparison) (hunk : Hunk) :
  newLines (texts.body hunk) = (texts.after.take hunk.stop).drop hunk.start
  := by
  rw [← flatMap_drop_range_getElem?, body, newLines, List.filterMap_flatMap]
  congr 1
  funext i
  exact texts.newLines_patchLine i

/-! ### Patches that can be applied -/

/-- A hunk as it is applied: from a line on, some lines are replaced by others. -/
structure Change where
  start : Nat
  old : List (List Char)
  new : List (List Char)
  deriving DecidableEq, Repr

/-- What a hunk says when it is read. -/
def change (texts : Comparison) (hunk : Hunk) : Change :=
  ⟨hunk.start, oldLines (texts.body hunk), newLines (texts.body hunk)⟩

/-- Applies changes, which come in order, to the lines of a text from the line `copied` on. There is
no result if a change starts before that line, or if the lines that it replaces are not there. -/
def applyFrom (copied : Nat) (lines : List (List Char)) :
    List Change → Option (List (List Char))
  | [] => some lines
  | ⟨start, old, new⟩ :: later =>
    let passed := start - copied
    if copied ≤ start ∧ old <+: lines.drop passed then
      (applyFrom (start + old.length) (lines.drop (passed + old.length)) later).map
        (lines.take passed ++ new ++ ·)
    else none

/-- Applies the patch to the first text. -/
def applied (texts : Comparison) : Option (List (List Char)) :=
  applyFrom 0 texts.before (texts.hunks.map texts.change)

/-- The lines of a text from one line on, from another one on, and from a third one on. -/
theorem divide_lines (lines : List (List Char)) (hstart : i ≤ start) (hstop : start ≤ stop) :
  (lines.drop i).take (start - i) ++ (lines.take stop).drop start ++ lines.drop stop = lines.drop i
  := by
  have hfirst := List.take_append_drop (start - i) (lines.drop i)
  have hsecond := List.take_append_drop (stop - start) (lines.drop start)
  rw [List.drop_drop, Nat.add_sub_cancel' hstart] at hfirst
  rw [List.drop_drop, Nat.add_sub_cancel' hstop] at hsecond
  rw [List.drop_take, List.append_assoc, hsecond, hfirst]

/-- Where no line differs, both texts are the same. -/
theorem take_drop_eq (hsame : ∀ i, start ≤ i → i < stop → texts.differs i = false) :
  (texts.before.drop start).take (stop - start) = (texts.after.drop start).take (stop - start)
  := by
  apply List.ext_getElem?
  intro k
  rw [List.getElem?_take, List.getElem?_take, List.getElem?_drop, List.getElem?_drop]
  split
  · have hk := hsame (start + k) (Nat.le_add_right _ _) (by omega)
    simpa [differs] using hk
  · rfl

/-- The numbers in the header of a hunk are the numbers of the lines that it holds. -/
theorem length_oldLines_body (hstop : hunk.stop ≤ texts.before.length) :
  (oldLines (texts.body hunk)).length = hunk.stop - hunk.start
  := by
  rw [oldLines_body, List.length_drop, List.length_take_of_le hstop]

theorem range_of_mem_hunks (h : hunk ∈ texts.hunks) :
  hunk.start ≤ hunk.stop ∧ hunk.stop ≤ texts.size
  := by
  obtain ⟨first, last, hopens, -⟩ := exists_opens h
  have hlt := lt_size_of_differs hopens.first_differs
  have hstart := hopens.start_eq
  have hstop := hopens.stop_eq
  have hle := hopens.le_stop
  omega

/-- Hunks that can be applied share no line. -/
theorem pairwise_of_applyFrom {hunks : List Hunk} {copied : Nat} {lines : List (List Char)}
    (hrange : ∀ hunk ∈ hunks, hunk.start ≤ hunk.stop ∧ hunk.stop ≤ texts.before.length)
    (h : (applyFrom copied lines (hunks.map texts.change)).isSome) :
  (∀ hunk ∈ hunks, copied ≤ hunk.start) ∧ hunks.Pairwise fun a b => a.stop ≤ b.start
  := by
  induction hunks generalizing copied lines with
  | nil => simp
  | cons hunk later ih =>
    rw [List.forall_mem_cons] at hrange
    rw [List.map_cons, change, applyFrom] at h
    split at h
    · next hfits =>
      rw [Option.isSome_map] at h
      obtain ⟨hlater, hpairwise⟩ := ih hrange.2 h
      rw [length_oldLines_body hrange.1.2, Nat.add_sub_cancel' hrange.1.1] at hlater
      rw [List.forall_mem_cons, List.pairwise_cons]
      refine ⟨⟨hfits.1, fun b hb => ?_⟩, hlater, hpairwise⟩
      exact Nat.le_trans (Nat.le_trans hfits.1 hrange.1.1) (hlater b hb)
    · cases h

/-- From the line `copied` on, the hunks share no line, and they hold all lines that differ. -/
structure Covers (texts : Comparison) (copied : Nat) (hunks : List Hunk) : Prop where
  range : ∀ hunk ∈ hunks, hunk.start ≤ hunk.stop ∧ hunk.stop ≤ texts.before.length
  le_start : ∀ hunk ∈ hunks, copied ≤ hunk.start
  apart : hunks.Pairwise fun a b => a.stop ≤ b.start
  held : ∀ i, copied ≤ i → texts.differs i = true → ∃ hunk ∈ hunks, hunk.start ≤ i ∧ i < hunk.stop

namespace Covers

variable {copied : Nat} {later : List Hunk}

theorem drop_eq (h : texts.Covers copied []) (hlength : texts.before.length = texts.after.length) :
  texts.before.drop copied = texts.after.drop copied
  := by
  have hsame := @take_drop_eq texts copied texts.before.length fun i hle _ => by
    rw [Bool.eq_false_iff]
    intro hdiffers
    obtain ⟨_, hmem, -⟩ := h.held i hle hdiffers
    cases hmem
  rwa [List.take_of_length_le (by simp), List.take_of_length_le (by simp [hlength])] at hsame

/-- The lines in front of the first hunk are the same. -/
theorem take_eq (h : texts.Covers copied (hunk :: later)) :
  (texts.before.drop copied).take (hunk.start - copied) =
    (texts.after.drop copied).take (hunk.start - copied)
  := by
  apply take_drop_eq
  intro i hle hlt
  rw [Bool.eq_false_iff]
  intro hdiffers
  obtain ⟨other, hmem, hother, -⟩ := h.held i hle hdiffers
  obtain rfl | hmem := List.mem_cons.mp hmem
  · omega
  · have hrange := (h.range hunk List.mem_cons_self).1
    have hapart := (List.pairwise_cons.mp h.apart).1 other hmem
    omega

theorem tail (h : texts.Covers copied (hunk :: later)) :
  texts.Covers hunk.stop later
  where
  range other hmem := h.range other (List.mem_cons_of_mem _ hmem)
  le_start := (List.pairwise_cons.mp h.apart).1
  apart := (List.pairwise_cons.mp h.apart).2
  held i hle hdiffers := by
    have hstart := h.le_start hunk List.mem_cons_self
    have hrange := (h.range hunk List.mem_cons_self).1
    obtain ⟨other, hmem, hother⟩ := h.held i (by omega) hdiffers
    obtain rfl | hmem := List.mem_cons.mp hmem
    · omega
    · exact ⟨other, hmem, hother⟩

end Covers

/-- Hunks that share no line and hold all lines that differ take what is left of the first text to
what is left of the second one. -/
theorem applyFrom_map_change {hunks : List Hunk} {copied : Nat}
    (hlength : texts.before.length = texts.after.length) (h : texts.Covers copied hunks) :
  applyFrom copied (texts.before.drop copied) (hunks.map texts.change) =
    some (texts.after.drop copied)
  := by
  induction hunks generalizing copied with
  | nil => rw [List.map_nil, applyFrom, h.drop_eq hlength]
  | cons hunk later ih =>
    have hcopied := h.le_start hunk List.mem_cons_self
    obtain ⟨hstart, hstop⟩ := h.range hunk List.mem_cons_self
    have hfits : copied ≤ hunk.start ∧
        oldLines (texts.body hunk) <+: (texts.before.drop copied).drop (hunk.start - copied) := by
      rw [List.drop_drop, Nat.add_sub_cancel' hcopied, oldLines_body, List.drop_take]
      exact ⟨hcopied, List.take_prefix _ _⟩
    rw [List.map_cons, change, applyFrom, if_pos hfits, length_oldLines_body hstop,
      Nat.add_sub_cancel' hstart, List.drop_drop, ← Nat.add_assoc, Nat.add_sub_cancel' hcopied,
      Nat.add_sub_cancel' hstart, ih h.tail, h.take_eq, newLines_body, Option.map_some,
      divide_lines texts.after hcopied hstart]

/-- For texts with the same number of lines, the patch takes the first one to the second one exactly
if no two of its hunks share a line. -/
theorem applied_eq_some_iff (hlength : texts.before.length = texts.after.length) :
  texts.applied = some texts.after ↔ texts.hunks.Pairwise fun a b => a.stop ≤ b.start
  := by
  have hsize : texts.size = texts.before.length := by rw [size, ← hlength, Nat.max_self]
  have hrange : ∀ hunk ∈ texts.hunks, hunk.start ≤ hunk.stop ∧ hunk.stop ≤ texts.before.length :=
    fun hunk h => hsize ▸ range_of_mem_hunks h
  constructor
  · intro h
    exact (pairwise_of_applyFrom hrange (Option.isSome_of_eq_some h)).2
  · intro h
    exact applyFrom_map_change hlength {
      range := hrange
      le_start := fun _ _ => Nat.zero_le _
      apart := h
      held := fun i _ hdiffers => exists_mem_hunks hdiffers }

/-- Three lines between two lines that differ: the hunks share the third line. -/
theorem applied_eq_some_iff_shared :
  let texts : Comparison := ⟨["a", "b", "c", "d", "e"].map String.toList,
    ["x", "b", "c", "d", "y"].map String.toList⟩
  texts.hunks = [⟨0, 3⟩, ⟨2, 5⟩] ∧ texts.applied ≠ some texts.after
  := by
  intro texts
  have hhunks : texts.hunks = [⟨0, 3⟩, ⟨2, 5⟩] := by cbv
  have hlength : texts.before.length = texts.after.length := rfl
  rw [ne_eq, applied_eq_some_iff hlength, hhunks]
  decide

end UtilityClasses.Comparison
