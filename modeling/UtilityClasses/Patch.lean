import UtilityClasses.Text.Line

/-!
# Patches

The difference of two texts, line by line.  Lines are compared by number, so a patch is meant
for two texts in which corresponding lines have the same number.
-/

namespace UtilityClasses

/-- The lines numbered from `start`, up to and without `stop`, counted from zero. -/
structure Hunk where
  start : Nat
  stop : Nat
  deriving DecidableEq, Repr

/-- Two texts, as lines. -/
structure Comparison where
  before : List (List Char)
  after : List (List Char)

namespace Comparison

/-- Two texts, as lines. -/
def ofTexts (before after : String) : Comparison :=
  ⟨Text.lines before.toList, Text.lines after.toList⟩

/-- The number of lines of the longer text. -/
def size (texts : Comparison) : Nat :=
  max texts.before.length texts.after.length

/-- Whether the lines of a number differ.  A line that is missing differs from every line. -/
def differs (texts : Comparison) (i : Nat) : Bool :=
  texts.before[i]? ≠ texts.after[i]?

/-- The end of a hunk that extends at least to `stop`: while the line behind it differs, three
more lines are taken in. -/
def hunkStop (texts : Comparison) (stop : Nat) : Nat :=
  if stop < texts.size ∧ texts.differs stop then
    texts.hunkStop (min (stop + 3) texts.size)
  else stop
termination_by texts.size - stop

theorem le_hunkStop (texts : Comparison) (stop : Nat) :
  stop ≤ texts.hunkStop stop
  := by
  fun_induction hunkStop texts stop with
  | case1 stop h ih => omega
  | case2 stop h => exact Nat.le_refl stop

/-- The hunks of the lines from `i` on.  A hunk starts two lines before a difference and
extends at least two lines behind it. -/
def hunksFrom (texts : Comparison) (i : Nat) : List Hunk :=
  if i < texts.size then
    if texts.differs i then
      let stop := texts.hunkStop (min (i + 3) texts.size)
      ⟨i - 2, stop⟩ :: texts.hunksFrom stop
    else texts.hunksFrom (i + 1)
  else []
termination_by texts.size - i
decreasing_by
  · have := texts.le_hunkStop (min (i + 3) texts.size)
    omega
  · omega

/-- The hunks of a comparison. -/
def hunks (texts : Comparison) : List Hunk :=
  texts.hunksFrom 0

/-- The lines of a patch for the line of a number: the line itself, or the old one and then
the new one. -/
def patchLine (texts : Comparison) (i : Nat) : List (List Char) :=
  if texts.differs i then
    (texts.before[i]?.toList.map ('-' :: ·)) ++ (texts.after[i]?.toList.map ('+' :: ·))
  else texts.before[i]?.toList.map (' ' :: ·)

/-- The first line of a hunk. -/
def header (hunk : Hunk) : String :=
  let range := toString (hunk.start + 1) ++ "," ++ toString (hunk.stop - hunk.start)
  "@@ -" ++ range ++ " +" ++ range ++ " @@"

/-- A hunk, each line with its line feed. -/
def renderHunk (texts : Comparison) (hunk : Hunk) : String :=
  let numbers := (List.range hunk.stop).drop hunk.start
  let changes := (numbers.flatMap texts.patchLine).map String.ofList
  String.join ((header hunk :: changes).map (· ++ "\n"))

/-- The patch for the file at a path. -/
def render (texts : Comparison) (path : String) : String :=
  "--- " ++ path ++ "\n+++ " ++ path ++ "\n" ++ String.join (texts.hunks.map texts.renderHunk)

end Comparison

end UtilityClasses
