/-!
# Bands of code points

A property of characters that has no rule shorter than a list is kept as a table of
bands.  A band is an arithmetic progression of code points, which suits scripts whose
capital and small letters alternate.
-/

namespace UtilityClasses

/-- The code points `first`, `first + step`, `first + 2 * step`, and so on up to `last`. -/
structure Band where
  first : Nat
  last : Nat
  step : Nat

/-- Whether a code point lies on the band. -/
def Band.holds (band : Band) (n : Nat) : Bool :=
  band.first ≤ n && n ≤ band.last && (n - band.first) % band.step == 0

/-- Whether some band of the table holds the character. -/
def Band.someHolds (table : List Band) (c : Char) : Bool :=
  table.any fun band => band.holds c.toNat

end UtilityClasses
