import UtilityClasses.Text.Band

/-!
# Blanks and words

`isBlank` is the Unicode property `White_Space`.  `words` cuts a text at its blanks and
keeps the runs between them.
-/

namespace UtilityClasses.Text

/-- The code points with the property `White_Space`. -/
def blanks : List Band := [
  ⟨0x09, 0x0D, 1⟩, ⟨0x20, 0x20, 1⟩, ⟨0x85, 0x85, 1⟩, ⟨0xA0, 0xA0, 1⟩, ⟨0x1680, 0x1680, 1⟩,
  ⟨0x2000, 0x200A, 1⟩, ⟨0x2028, 0x2029, 1⟩, ⟨0x202F, 0x202F, 1⟩, ⟨0x205F, 0x205F, 1⟩,
  ⟨0x3000, 0x3000, 1⟩]

/-- Whether a character separates words. -/
def isBlank (c : Char) : Bool :=
  Band.someHolds blanks c

/-- The maximal non-empty runs of characters that are not blank, from left to right. -/
def words (text : List Char) : List (List Char) :=
  (text.splitOnP isBlank).filter fun run => !run.isEmpty

end UtilityClasses.Text
