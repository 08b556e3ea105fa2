import UtilityClasses.Token.Segments

/-!
# Prefixing a token

The affix goes in front of the root: `tw-` makes `hover:tw-bg-red-500` of
`hover:bg-red-500`.  Modifiers and the marker `!` keep their places.  A token that already
carries the affix is left alone.
-/

namespace UtilityClasses.Token

/-- Modifiers as they stand in front of a root, each with its colon. -/
def chain (modifiers : List (List Char)) : List Char :=
  modifiers.flatMap fun modifier => modifier ++ [':']

/-- Whether the affix starts at one of the segments and reaches the start of the root, given
the modifiers and the text from the root on.  For an affix without colons this says that the
root starts with the affix; the affix `tw:` is also found in `tw:flex`, whose root is `flex`. -/
def carries (affix : List Char) : List (List Char) → List Char → Bool
  | [], rest => affix.isPrefixOf rest
  | modifier :: later, rest =>
    let front := chain (modifier :: later)
    (front.length ≤ affix.length && affix.isPrefixOf (front ++ rest)) || carries affix later rest

/-- Puts the affix in front of the root of a token that has no marker. -/
def affixBody (affix body : List Char) : List Char :=
  let modifiers := (cut body).dropLast
  let rest := body.drop (chain modifiers).length
  if body.isEmpty || carries affix modifiers rest then body
  else chain modifiers ++ affix ++ rest

/-- Puts the affix in front of the root of a token. -/
def affixChars (affix : List Char) : List Char → List Char
  | '!' :: body => '!' :: affixBody affix body
  | body => affixBody affix body

/-- Puts the affix in front of the root of a token, unless the token carries it. -/
def withAffix (affix token : String) : String :=
  String.ofList (affixChars affix.toList token.toList)

end UtilityClasses.Token
